import LightClient.Json.Text
import LightClient.Json.Token
import LightClient.Proofs.Text.Basic
import Mathlib.Data.List.TakeWhile

/-!
Tokens of written JSON: punctuation, words, numbers and strings are read back as they were written.
-/

namespace LightClient.Json

/-- No number or word goes on in this text. -/
def Stops (rest : List Char) : Prop :=
  ∀ c ∈ rest.head?, Token.isNumeric c = false ∧ c.isAlpha = false

theorem stops_nil : Stops [] :=
  fun _ h => nomatch h

theorem stops_cons {c : Char} (hn : Token.isNumeric c = false) (ha : c.isAlpha = false)
    (rest : List Char) : Stops (c :: rest) := by
  intro c' hc'
  obtain rfl := Option.some.inj hc'
  exact ⟨hn, ha⟩

namespace Token

/-- The characters are read as this token where `rest` follows them. -/
def Reads (cs : List Char) (t : Token) (rest : List Char) : Prop :=
  ∃ c more, cs = c :: more ∧ isSpace c = false ∧ next c (more ++ rest) = some (t, rest)

variable {cs rest : List Char} {t : Token}

theorem scan_reads (h : Reads cs t rest) (limit : Nat) :
    scan (limit + 1) (cs ++ rest) = t :: scan limit rest := by
  obtain ⟨c, more, rfl, hspace, hnext⟩ := h
  rw [List.cons_append, scan, List.dropWhile_cons_of_neg (by simp [hspace])]
  simp only [hnext]

/-- Spaces in front of a token are passed over. -/
theorem scan_spaces {spaces : List Char} (h : ∀ c ∈ spaces, isSpace c = true) (cs : List Char)
    (limit : Nat) : scan limit (spaces ++ cs) = scan limit cs := by
  cases limit with
  | zero => rfl
  | succ limit => rw [scan, scan, List.dropWhile_append_of_pos h]

/-- No number or word goes on in a space. -/
theorem stops_space {c : Char} (h : isSpace c = true) (rest : List Char) : Stops (c :: rest) := by
  have hc : ((c = ' ' ∨ c = '\n') ∨ c = '\t') ∨ c = '\r' := by simpa [isSpace] using h
  rcases hc with ((rfl | rfl) | rfl) | rfl
  all_goals exact stops_cons rfl rfl rest

theorem stops_spaces {spaces : List Char} (h : ∀ c ∈ spaces, isSpace c = true)
    (hrest : Stops rest) : Stops (spaces ++ rest) := by
  cases spaces with
  | nil => exact hrest
  | cons c spaces => exact stops_space (h c List.mem_cons_self) _

theorem takeWhile_append_of_stop {p : Char → Bool} (h : ∀ c ∈ cs, p c = true)
    (hrest : ∀ c ∈ rest.head?, p c = false) : (cs ++ rest).takeWhile p = cs := by
  rw [List.takeWhile_append_of_pos h]
  cases rest with
  | nil => simp
  | cons c rest => simp [hrest c rfl]

/-! ## Marks -/

/-- A mark is a token of its own, whatever stands before or after it. -/
theorem of_punctuation {c : Char} (h : ofPunctuation? c = some t) :
    isSpace c = false ∧ isNumeric c = false ∧ c.isAlpha = false := by
  rw [ofPunctuation?] at h
  split at h
  · next hc => exact hc ▸ ⟨rfl, rfl, rfl⟩
  split at h
  · next hc => exact hc ▸ ⟨rfl, rfl, rfl⟩
  split at h
  · next hc => exact hc ▸ ⟨rfl, rfl, rfl⟩
  split at h
  · next hc => exact hc ▸ ⟨rfl, rfl, rfl⟩
  split at h
  · next hc => exact hc ▸ ⟨rfl, rfl, rfl⟩
  split at h
  · next hc => exact hc ▸ ⟨rfl, rfl, rfl⟩
  · exact nomatch h

theorem reads_mark {c : Char} (h : ofPunctuation? c = some t) : Reads [c] t rest := by
  refine ⟨c, [], rfl, (of_punctuation h).1, ?_⟩
  rw [next, h]
  rfl

theorem stops_mark {c : Char} (h : ofPunctuation? c = some t) (rest : List Char) :
    Stops (c :: rest) :=
  have ⟨_, hn, ha⟩ := of_punctuation h
  stops_cons hn ha rest

/-! ## Words -/

theorem reads_word {c : Char} {more : List Char} (hc : ofPunctuation? c = none)
    (hquote : c ≠ '\x22') (hnumber : (c = '-' || c.isDigit) = false) (hspace : isSpace c = false)
    (halpha : (c :: more).all Char.isAlpha = true) (hword : ofWord? (c :: more) = some t)
    (hrest : Stops rest) : Reads (c :: more) t rest := by
  refine ⟨c, more, rfl, hspace, ?_⟩
  have htake : (c :: (more ++ rest)).takeWhile Char.isAlpha = c :: more :=
    takeWhile_append_of_stop (List.all_eq_true.mp halpha) fun c' hc' => (hrest c' hc').2
  rw [next, hc]
  simp only [if_neg hquote, hnumber, htake, hword]
  simp

theorem reads_null (hrest : Stops rest) : Reads ['n', 'u', 'l', 'l'] .null rest :=
  reads_word rfl (by decide) rfl rfl rfl rfl hrest

theorem reads_true (hrest : Stops rest) : Reads ['t', 'r', 'u', 'e'] (.bool true) rest :=
  reads_word rfl (by decide) rfl rfl rfl rfl hrest

theorem reads_false (hrest : Stops rest) : Reads ['f', 'a', 'l', 's', 'e'] (.bool false) rest :=
  reads_word rfl (by decide) rfl rfl rfl rfl hrest

/-! ## Numbers -/

theorem isNumeric_of_isDigit {c : Char} (h : c.isDigit = true) : isNumeric c = true := by
  simp [isNumeric, h]

/-- A number has no leading zero. -/
theorem toDigits_head_zero {n : Nat} (h : (Nat.toDigits 10 n).head? = some '0') :
    Nat.toDigits 10 n = ['0'] := by
  induction n using Nat.strongRecOn with
  | ind n ih =>
    by_cases hlt : n < 10
    · rw [Nat.toDigits_of_lt_base hlt] at h ⊢
      exact congrArg ([·]) (Option.some.inj h)
    · have hsplit : Nat.toDigits 10 n = Nat.toDigits 10 (n / 10) ++ Nat.toDigits 10 (n % 10) := by
        rw [Nat.toDigits_append_toDigits (by decide) (by omega) (Nat.mod_lt _ (by decide)),
          Nat.div_add_mod]
      rw [hsplit, List.head?_append_of_ne_nil _ Nat.toDigits_ne_nil] at h
      have hzero := ih (n / 10) (by omega) h
      have hvalue := congrArg (Nat.ofDigitChars 10 · 0) hzero
      rw [Nat.ofDigitChars_toDigits (by decide) (by decide)] at hvalue
      have hnone : Nat.ofDigitChars 10 ['0'] 0 = 0 := by decide
      omega

theorem ofDigits_toDigits (n : Nat) : ofDigits (Nat.toDigits 10 n) = n :=
  foldl_toDigits n

theorem ofUnsigned?_toDigits (n : Nat) (negative : Bool) (h : negative = true → n ≠ 0) :
    ofUnsigned? negative (Nat.toDigits 10 n) =
      some (.integer (if negative then -n else n)) := by
  have hdigits : (Nat.toDigits 10 n).takeWhile Char.isDigit = Nat.toDigits 10 n :=
    List.takeWhile_eq_self_iff.mpr isDigit_of_mem_toDigits
  have hzero : ((Nat.toDigits 10 n).head? = some '0' &&
      (Nat.toDigits 10 n).length != 1) = false := by
    by_cases hhead : (Nat.toDigits 10 n).head? = some '0'
    · rw [toDigits_head_zero hhead]
      rfl
    · simp [hhead]
  have hne : (Nat.toDigits 10 n).isEmpty = false := by
    rw [List.isEmpty_eq_false_iff]
    exact Nat.toDigits_ne_nil
  rw [ofUnsigned?]
  simp only [hdigits, ofDigits_toDigits, hzero, hne, List.drop_length, isTail, isExponent]
  cases negative with
  | false => simp
  | true => simp [h rfl]

theorem reads_number {c : Char} {more : List Char} (hc : (c = '-' || c.isDigit) = true)
    (hall : ∀ c' ∈ c :: more, isNumeric c' = true) (hnumber : ofNumber? (c :: more) = some t)
    (hrest : Stops rest) : Reads (c :: more) t rest := by
  have hother : ∀ c', (c' = '-' || c'.isDigit) = false → c ≠ c' := by
    intro c' hc' heq
    exact Bool.false_ne_true (hc'.symm.trans (heq ▸ hc))
  have hspace : isSpace c = false := by
    simp [isSpace, hother ' ' rfl, hother '\n' rfl, hother '\t' rfl, hother '\r' rfl]
  have hmark : ofPunctuation? c = none := by
    simp [ofPunctuation?, hother '\x7b' rfl, hother '\x7d' rfl, hother '[' rfl, hother ']' rfl,
      hother ':' rfl, hother ',' rfl]
  have htake : (c :: (more ++ rest)).takeWhile isNumeric = c :: more :=
    takeWhile_append_of_stop hall fun c' hc' => (hrest c' hc').1
  refine ⟨c, more, rfl, hspace, ?_⟩
  rw [next, hmark]
  simp only [if_neg (hother '\x22' rfl), if_pos hc, htake, hnumber]
  simp

theorem reads_integer (n : Int) (hrest : Stops rest) :
    Reads (toString n).toList (.integer n) rest := by
  cases n with
  | ofNat n =>
    change Reads n.repr.toList _ rest
    rw [Nat.toList_repr]
    cases hdigits : Nat.toDigits 10 n with
    | nil => exact absurd hdigits Nat.toDigits_ne_nil
    | cons c more =>
      have hall : ∀ c' ∈ c :: more, c'.isDigit = true := hdigits ▸ isDigit_of_mem_toDigits
      have hc : c.isDigit = true := hall c List.mem_cons_self
      have hnumber : ofNumber? (c :: more) = some (.integer n) := by
        rw [ofNumber?, ← hdigits]
        · exact ofUnsigned?_toDigits n false (nomatch ·)
        · rintro more' heq
          obtain rfl := (List.cons.inj heq).1
          exact nomatch hc
      exact reads_number (by simp [hc]) (fun c' hc' => isNumeric_of_isDigit (hall c' hc')) hnumber
        hrest
  | negSucc n =>
    change Reads ("-" ++ (n + 1).repr).toList _ rest
    rw [String.toList_append, Nat.toList_repr]
    have hall : ∀ c ∈ '-' :: Nat.toDigits 10 (n + 1), isNumeric c = true := by
      rw [List.forall_mem_cons]
      exact ⟨rfl, fun c hc => isNumeric_of_isDigit (isDigit_of_mem_toDigits c hc)⟩
    exact reads_number rfl hall (ofUnsigned?_toDigits (n + 1) true fun _ => Nat.succ_ne_zero n)
      hrest

/-! ## Strings -/

theorem hexValue?_digitChar {n : Nat} (h : n < 16) : hexValue? (Hex.digitChar n) = some n := by
  have hall : ∀ n : Fin 16, hexValue? (Hex.digitChar n) = some n.val := by decide
  exact hall ⟨n, h⟩

theorem scanString_backslash {e c : Char} {units : List Nat} {text : List Char} (hu : e ≠ 'u')
    (he : unescape? e = some c) (h : scanString text = some (units, rest)) :
    scanString ('\\' :: e :: text) = some (c.toNat :: units, rest) := by
  rw [scanString.eq_3 _ _ fun _ _ _ _ _ heq => absurd heq hu, he]
  simp [h]

theorem scanString_control {c : Char} {units : List Nat} {text : List Char} (hc : c.toNat < 0x20)
    (h : scanString text = some (units, rest)) :
    scanString ('\\' :: 'u' :: '0' :: '0' :: Hex.digitChar (c.toNat / 16) ::
      Hex.digitChar (c.toNat % 16) :: text) = some (c.toNat :: units, rest) := by
  have hunit : hex4? '0' '0' (Hex.digitChar (c.toNat / 16)) (Hex.digitChar (c.toNat % 16)) =
      some c.toNat := by
    have hzero : hexValue? '0' = some 0 := rfl
    rw [hex4?, hzero, hexValue?_digitChar (by omega), hexValue?_digitChar (by omega)]
    exact congrArg some (by omega)
  rw [scanString, hunit, h]
  rfl

theorem scanString_plain {c : Char} {units : List Nat} {text : List Char} (hquote : c ≠ '\x22')
    (hback : c ≠ '\\') (hc : 0x20 ≤ c.toNat) (h : scanString text = some (units, rest)) :
    scanString (c :: text) = some (c.toNat :: units, rest) := by
  rw [scanString.eq_4 _ _ (fun _ _ _ _ _ heq => absurd heq hback) fun _ _ heq => absurd heq hback]
  simp [hquote, hback, hc, h]

theorem scanString_escapeChar (c : Char) {units : List Nat} {text : List Char}
    (h : scanString text = some (units, rest)) :
    scanString (escapeChar c ++ text) = some (c.toNat :: units, rest) := by
  rw [escapeChar]
  split
  · next hc =>
    have hc' : c = '\x22' ∨ c = '\\' := by simpa using hc
    rcases hc' with rfl | rfl
    · exact scanString_backslash (by decide) rfl h
    · exact scanString_backslash (by decide) rfl h
  next hquote =>
  split
  · next hc => exact scanString_backslash (by decide) (congrArg some hc.symm) h
  split
  · next hc => exact scanString_backslash (by decide) (congrArg some hc.symm) h
  split
  · next hc => exact scanString_backslash (by decide) (congrArg some hc.symm) h
  split
  · next hc => exact scanString_backslash (by decide) (congrArg some hc.symm) h
  split
  · next hc => exact scanString_backslash (by decide) (congrArg some hc.symm) h
  split
  · next hlow => exact scanString_control hlow h
  · next hlow =>
    have hc : ¬ (c = '\x22' ∨ c = '\\') := by simpa using hquote
    rw [not_or] at hc
    exact scanString_plain hc.1 hc.2 (Nat.not_lt.mp hlow) h

theorem scanString_escaped (cs : List Char) :
    scanString (cs.flatMap escapeChar ++ '\x22' :: rest) = some (cs.map Char.toNat, rest) := by
  induction cs with
  | nil => rfl
  | cons c cs ih =>
    rw [List.flatMap_cons, List.append_assoc, scanString_escapeChar c ih]
    rfl

theorem joinHalves_toNat (cs : List Char) : joinHalves (cs.map Char.toNat) = some cs := by
  induction cs with
  | nil => rfl
  | cons c cs ih =>
    have hvalid : c.toNat < 0xd800 ∨ 0xdfff < c.toNat := by
      rcases c.valid with h | h
      · exact .inl h
      · exact .inr h.1
    rw [List.map_cons, joinHalves.eq_def]
    simp only [if_neg (show ¬ (0xd800 ≤ c.toNat ∧ c.toNat < 0xdc00) by omega),
      if_neg (show ¬ (0xdc00 ≤ c.toNat ∧ c.toNat < 0xe000) by omega), ih, Char.ofNat_toNat]
    rfl

theorem reads_string (text : String) : Reads (quoteChars text) (.string text) rest := by
  have hscan : scanString (text.toList.flatMap escapeChar ++ ['\x22'] ++ rest) =
      some (text.toList.map Char.toNat, rest) := by
    rw [List.append_assoc]
    exact scanString_escaped text.toList
  have hunits : ofUnits (text.toList.map Char.toNat) = .string text := by
    rw [ofUnits, joinHalves_toNat]
    exact congrArg Token.string String.ofList_toList
  have hmark : ofPunctuation? '\x22' = none := rfl
  refine ⟨'\x22', text.toList.flatMap escapeChar ++ ['\x22'], rfl, rfl, ?_⟩
  rw [next, hmark]
  simp only [if_true, hscan]
  exact congrArg (fun t => some (t, rest)) hunits

end Token

end LightClient.Json

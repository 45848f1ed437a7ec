import LightClient.Proofs.Block.PublicKey
import LightClient.Proofs.Text.HexDigits

/-!
The texts of digests and of public keys. Main statement: just the texts of the right digits are
read, of either case, each as the value that is written as it in lower case; all others are
malformed input.
-/

namespace LightClient

/-! ## Texts with a plain form -/

section Texts

variable {α ε : Type} {read : String → Except ε α} {text : α → String} {message : ε → String}
  {Spells : String → String → Prop}

/-- Just the texts that spell a plain one are read, as the value with the plain text. All others are
malformed input. -/
structure ExactTexts (read : String → Except ε α) (text : α → String) (message : ε → String)
    (Spells : String → String → Prop) : Prop where
  exists_read_iff : ∀ s, (∃ a, read s = .ok a) ↔ ∃ plain, Spells s plain
  text_eq : ∀ s plain a, Spells s plain → read s = .ok a → text a = plain
  read_text : ∀ a, read (text a) = .ok a
  read_eq_iff : ∀ s s' plain plain', Spells s plain → Spells s' plain' →
    (read s = read s' ↔ plain = plain')
  refused : ∀ s, (¬ ∃ plain, Spells s plain) →
    ∃ e reason, read s = .error e ∧ message e = "malformed input: " ++ reason

theorem exactTexts_of (hread : ∀ a, read (text a) = .ok a)
    (hsound : ∀ s a, read s = .ok a → Spells s (text a))
    (hcomplete : ∀ s plain, Spells s plain → ∃ a, read s = .ok a ∧ text a = plain)
    (hmessage : ∀ e, ∃ reason, message e = "malformed input: " ++ reason) :
    ExactTexts read text message Spells where
  exists_read_iff s := by
    constructor
    · exact fun ⟨a, ha⟩ => ⟨text a, hsound s a ha⟩
    · rintro ⟨plain, hs⟩
      obtain ⟨a, ha, -⟩ := hcomplete s plain hs
      exact ⟨a, ha⟩
  text_eq s plain a hs ha := by
    obtain ⟨a', ha', htext⟩ := hcomplete s plain hs
    obtain rfl := Except.ok.inj (ha.symm.trans ha')
    exact htext
  read_text := hread
  read_eq_iff s s' plain plain' hs hs' := by
    obtain ⟨a, ha, rfl⟩ := hcomplete s plain hs
    obtain ⟨a', ha', rfl⟩ := hcomplete s' plain' hs'
    rw [ha, ha', Except.ok.injEq]
    refine ⟨congrArg text, fun htext => ?_⟩
    have hsame := hread a
    rw [htext, hread a'] at hsame
    exact (Except.ok.inj hsame).symm
  refused s hs := by
    cases hrun : read s with
    | ok a => exact absurd ⟨text a, hsound s a hrun⟩ hs
    | error e =>
      obtain ⟨reason, hreason⟩ := hmessage e
      exact ⟨e, reason, rfl, hreason⟩

end Texts

/-! ## Digests -/

namespace Digest

/-- The text is 64 digits, which may stand behind one mark, and its plain form is their text in
lower case. -/
def Spells (s plain : String) : Prop :=
  ∃ digits, (s = digits ∨ s = "0x" ++ digits) ∧ Hex.Digits 64 digits ∧ plain = digits.toLower

theorem dropMark_of_digits {count : Nat} {digits : String} (h : Hex.Digits count digits) :
    dropMark digits = digits :=
  dropMark_of_not_mem fun hx => absurd (h.isDigit 'x' hx) (by decide)

theorem dropMark_append (s : String) : dropMark ("0x" ++ s) = s := by
  rw [dropMark, String.toList_append]
  exact String.ofList_toList

theorem eq_or_eq_append (s : String) : s = dropMark s ∨ s = "0x" ++ dropMark s := by
  rw [dropMark]
  split
  · next rest heq =>
    refine .inr (String.toList_inj.mp ?_)
    rw [heq, String.toList_append]
    exact congrArg ('0' :: 'x' :: ·) String.toList_ofList.symm
  · exact .inl rfl

theorem ofBytes_eq_ok {bytes : List UInt8} {d : Digest} :
    ofBytes bytes = .ok d ↔ bytes = d.bytes := by
  rw [ofBytes]
  split
  · next h =>
    rw [Except.ok.injEq]
    exact ⟨fun hd => hd ▸ rfl, fun hd => by subst hd; rfl⟩
  · next h => exact ⟨fun hd => (nomatch hd), fun hd => absurd (hd ▸ d.length_bytes) h⟩

theorem ofHex_eq_ok {s : String} {d : Digest} :
    ofHex s = .ok d ↔ Hex.decode (dropMark s) = .ok d.bytes := by
  rw [ofHex, bind_eq_ok]
  simp only [mapError_eq_ok, ofBytes_eq_ok, exists_eq_right]

theorem spells_of_ofHex {s : String} {d : Digest} (h : ofHex s = .ok d) : Spells s d.toHex := by
  obtain ⟨hdigits, hlower⟩ := Hex.digits_of_decode (ofHex_eq_ok.mp h)
  rw [d.length_bytes] at hdigits
  exact ⟨dropMark s, eq_or_eq_append s, hdigits, hlower⟩

theorem Spells.exists_ofHex {s plain : String} (h : Spells s plain) :
    ∃ d, ofHex s = .ok d ∧ d.toHex = plain := by
  obtain ⟨digits, hs, hdigits, rfl⟩ := h
  obtain ⟨bytes, hbytes, hlength⟩ : ∃ bytes, Hex.decode digits = .ok bytes ∧ bytes.length = 32 :=
    hdigits.exists_decode
  have hmark : dropMark s = digits := by
    rcases hs with rfl | rfl
    · exact dropMark_of_digits hdigits
    · exact dropMark_append digits
  refine ⟨⟨bytes, hlength⟩, ofHex_eq_ok.mpr (by rw [hmark, hbytes]), ?_⟩
  exact (Hex.digits_of_decode hbytes).2

theorem exactTexts : ExactTexts ofHex toHex ParseError.message Spells :=
  exactTexts_of ofHex_toHex (fun _ _ => spells_of_ofHex) (fun _ _ => Spells.exists_ofHex)
    fun e => ⟨e.reason, rfl⟩

end Digest

/-! ## Public keys -/

namespace PublicKey

/-- The text is one of two marks and 66 digits, and in its plain form these are in lower case. -/
def Spells (s plain : String) : Prop :=
  ∃ mark digits, (mark = "K1:" ∨ mark = "R1:") ∧ s = mark ++ digits ∧ Hex.Digits 66 digits ∧
    plain = mark ++ digits.toLower

theorem curveOf_eq_ok {name : String} {curve : Curve} :
    curveOf name = .ok curve ↔ name = curve.text := by
  refine ⟨fun h => ?_, fun h => h ▸ curveOf_text curve⟩
  rw [curveOf] at h
  split at h
  · next hname => exact Except.ok.inj h ▸ hname
  · split at h
    · next hname => exact Except.ok.inj h ▸ hname
    · cases h

theorem ofPoint_eq_ok {curve : Curve} {point : List UInt8} {key : PublicKey} :
    ofPoint curve point = .ok key ↔ curve = key.curve ∧ point = key.point := by
  rw [ofPoint]
  split
  · next h =>
    rw [Except.ok.injEq]
    exact ⟨fun hkey => hkey ▸ ⟨rfl, rfl⟩, fun ⟨hcurve, hpoint⟩ => by subst hcurve hpoint; rfl⟩
  · next h => exact ⟨fun hkey => (nomatch hkey), fun hkey => absurd (hkey.2 ▸ key.length_point) h⟩

theorem drop_takeWhile {α : Type} (p : α → Bool) (l : List α) :
    l.drop (l.takeWhile p).length = l.dropWhile p := by
  induction l with
  | nil => rfl
  | cons a l ih => cases h : p a <;> simp [h, ih]

/-- A text is cut at its first colon. -/
theorem ofText_eq_ok {s : String} {key : PublicKey} : ofText s = .ok key ↔
    ∃ digits, s = key.curve.text ++ ":" ++ digits ∧ Hex.decode digits = .ok key.point := by
  constructor
  · intro h
    simp only [ofText, drop_takeWhile] at h
    split at h
    · cases h
    · next colon digits hcolon =>
      simp only [bind_eq_ok, mapError_eq_ok, curveOf_eq_ok, ofPoint_eq_ok] at h
      obtain ⟨curve, hname, point, hpoint, rfl, rfl⟩ := h
      have hhead := List.head?_dropWhile_not (· ≠ ':') s.toList
      rw [hcolon] at hhead
      obtain rfl : colon = ':' := by simpa using hhead
      refine ⟨String.ofList digits, String.toList_inj.mp ?_, hpoint⟩
      calc s.toList = s.toList.takeWhile (· ≠ ':') ++ ':' :: digits := by
            rw [← hcolon, List.takeWhile_append_dropWhile]
        _ = (key.curve.text ++ ":" ++ String.ofList digits).toList := by
            rw [← hname]
            simp only [String.toList_append, String.toList_ofList, List.append_assoc]
            rfl
  · rintro ⟨digits, rfl, hpoint⟩
    rw [ofText_append, hpoint]
    exact ofPoint_eq_ok.mpr ⟨rfl, rfl⟩

theorem text_append (curve : Curve) : curve.text ++ ":" = "K1:" ∨ curve.text ++ ":" = "R1:" := by
  cases curve with
  | k1 => exact .inl rfl
  | r1 => exact .inr rfl

theorem spells_of_ofText {s : String} {key : PublicKey} (h : ofText s = .ok key) :
    Spells s key.text := by
  obtain ⟨digits, hs, hpoint⟩ := ofText_eq_ok.mp h
  obtain ⟨hdigits, hlower⟩ := Hex.digits_of_decode hpoint
  rw [key.length_point] at hdigits
  refine ⟨key.curve.text ++ ":", digits, text_append key.curve, hs, hdigits, ?_⟩
  rw [text, hlower]

theorem Spells.exists_ofText {s plain : String} (h : Spells s plain) :
    ∃ key, ofText s = .ok key ∧ text key = plain := by
  obtain ⟨mark, digits, hmark, rfl, hdigits, rfl⟩ := h
  obtain ⟨point, hpoint, hlength⟩ : ∃ point, Hex.decode digits = .ok point ∧ point.length = 33 :=
    hdigits.exists_decode
  obtain ⟨curve, rfl⟩ : ∃ curve : Curve, mark = curve.text ++ ":" := by
    rcases hmark with rfl | rfl
    · exact ⟨.k1, rfl⟩
    · exact ⟨.r1, rfl⟩
  refine ⟨⟨curve, point, hlength⟩, ofText_eq_ok.mpr ⟨digits, rfl, hpoint⟩, ?_⟩
  rw [text, (Hex.digits_of_decode hpoint).2]

theorem ParseError.exists_message (e : ParseError) :
    ∃ reason, e.message = "malformed input: " ++ reason := by
  cases e with
  | noCurve s => exact ⟨"public key " ++ Quoted.text s ++ " has no type prefix", rfl⟩
  | unknownCurve curve => exact ⟨"unsupported key type " ++ Quoted.text curve, rfl⟩
  | hex e => exact ⟨"invalid public key hex: " ++ e.message, rfl⟩
  | wrongSize size => exact ⟨s!"public key must be 33 bytes, got {size}", rfl⟩

theorem exactTexts : ExactTexts ofText text ParseError.message Spells :=
  exactTexts_of ofText_text (fun _ _ => spells_of_ofText) (fun _ _ => Spells.exists_ofText)
    ParseError.exists_message

end PublicKey

/-- **Hexadecimal texts are exact.** As a digest just 64 digits of either case are read, which may
stand behind one mark, and as a public key just 66 behind `K1:` or `R1:`. What is read is written as
its text in lower case, without a mark for a digest, and read back from that; so two texts that are
read are one value if these forms are the same, and only then. Every other text is malformed
input. -/
theorem hexTexts_exact :
    ExactTexts Digest.ofHex Digest.toHex Digest.ParseError.message Digest.Spells ∧
    ExactTexts PublicKey.ofText PublicKey.text PublicKey.ParseError.message PublicKey.Spells :=
  ⟨Digest.exactTexts, PublicKey.exactTexts⟩

/-- A mark and digits in upper case, two marks, and two curves. -/
theorem hexTexts_exact_upper_case :
    let upper (count : Nat) := String.ofList (List.replicate count 'A')
    let lower (count : Nat) := String.ofList (List.replicate count 'a')
    Digest.ofHex ("0x" ++ upper 64) = Digest.ofHex (lower 64) ∧
      (∀ d, Digest.ofHex ("0x" ++ upper 64) = .ok d → d.toHex = lower 64) ∧
      (∃ e reason, Digest.ofHex ("0x" ++ ("0x" ++ lower 64)) = .error e ∧
        e.message = "malformed input: " ++ reason) ∧
      (∃ key, PublicKey.ofText ("R1:" ++ upper 66) = .ok key) ∧
      PublicKey.ofText ("R1:" ++ upper 66) ≠ PublicKey.ofText ("K1:" ++ upper 66) := by
  intro upper lower
  obtain ⟨hdigest, hkey⟩ := hexTexts_exact
  have hlower (count : Nat) : (upper count).toLower = lower count := by
    change (upper count).map Char.toLower = lower count
    simp [upper, lower, ← String.toList_inj]
  have hplain (count : Nat) : (lower count).toLower = lower count := by
    change (lower count).map Char.toLower = lower count
    simp [lower, ← String.toList_inj]
  have hdigits {c : Char} (hc : Hex.IsDigit c) (count : Nat) :
      Hex.Digits count (String.ofList (List.replicate count c)) := by
    constructor
    · rw [← String.length_toList, String.toList_ofList, List.length_replicate]
    · intro c' hc'
      rw [String.toList_ofList] at hc'
      exact List.eq_of_mem_replicate hc' ▸ hc
  have hmarked : Digest.Spells ("0x" ++ upper 64) (lower 64) :=
    ⟨upper 64, .inr rfl, hdigits (by decide) 64, (hlower 64).symm⟩
  have hbare : Digest.Spells (lower 64) (lower 64) :=
    ⟨lower 64, .inl rfl, hdigits (by decide) 64, (hplain 64).symm⟩
  have htwo : ¬ ∃ plain, Digest.Spells ("0x" ++ ("0x" ++ lower 64)) plain := by
    rintro ⟨plain, digits, hs, hd, -⟩
    have hx : 'x' ∈ digits.toList := by
      rcases hs with rfl | hs
      · simp
      · rw [← String.append_right_inj _ |>.mp hs]
        simp
    exact absurd (hd.isDigit 'x' hx) (by decide)
  have hr1 : PublicKey.Spells ("R1:" ++ upper 66) ("R1:" ++ lower 66) :=
    ⟨"R1:", upper 66, .inr rfl, rfl, hdigits (by decide) 66, by rw [hlower]⟩
  have hk1 : PublicKey.Spells ("K1:" ++ upper 66) ("K1:" ++ lower 66) :=
    ⟨"K1:", upper 66, .inl rfl, rfl, hdigits (by decide) 66, by rw [hlower]⟩
  refine ⟨(hdigest.read_eq_iff _ _ _ _ hmarked hbare).mpr rfl,
    fun d hd => hdigest.text_eq _ _ d hmarked hd, hdigest.refused _ htwo,
    (hkey.exists_read_iff _).mpr ⟨_, hr1⟩, ?_⟩
  rw [ne_eq, hkey.read_eq_iff _ _ _ _ hr1 hk1, ← String.toList_inj]
  simp

end LightClient

import LightClient.Proofs.Block.AccountName
import LightClient.Proofs.Text.Order
import Mathlib.Data.List.DropRight

/-!
Which texts are names, and in which order. Main statement: names are the texts of at most thirteen
characters without dots at their end, and they stand in the order of these texts.
-/

namespace LightClient.AccountName

/-! ## Symbols and their bytes -/

def symbolByte (n : Nat) : UInt8 :=
  UInt8.ofNat (symbolChar n).toNat

/-- The byte of a symbol stands for that symbol only. -/
theorem symbol?_eq_some {b : UInt8} {d : Nat} :
    symbol? b = some d ↔ d < 32 ∧ b = symbolByte d := by
  constructor
  · have hall : ∀ n : Fin 256, ∀ d ∈ symbol? (UInt8.ofNat n), d < 32 ∧
        UInt8.ofNat n = symbolByte d := by decide +kernel
    intro h
    have hb := hall ⟨b.toNat, b.toNat_lt⟩ d
    rw [UInt8.ofNat_toNat] at hb
    exact hb h
  · rintro ⟨hd, rfl⟩
    exact (toNat_symbolChar hd).2

/-- The bytes of symbols are in the order of the symbols. -/
theorem symbolByte_lt_iff {d e : Nat} (hd : d < 32) (he : e < 32) :
    (symbolByte d < symbolByte e ↔ d < e) ∧ (symbolByte d = symbolByte e ↔ d = e) := by
  have hall : ∀ d e : Fin 32, (symbolByte d < symbolByte e ↔ d.val < e.val) ∧
      (symbolByte d = symbolByte e ↔ d.val = e.val) := by decide +kernel
  exact hall ⟨d, hd⟩ ⟨e, he⟩

theorem utf8_map_symbolChar {ds : List Nat} (hlt : ∀ d ∈ ds, d < 32) :
    utf8 (String.ofList (ds.map symbolChar)) = ds.map symbolByte := by
  rw [utf8_ofList_of_lt, List.map_map]
  · rfl
  · intro c hc
    obtain ⟨d, hd, rfl⟩ := List.mem_map.mp hc
    exact (toNat_symbolChar (hlt d hd)).1

/-! ## The texts that can be read -/

/-- The texts of names: at most thirteen characters, the thirteenth of four bits only. -/
structure Readable (text : String) : Prop where
  length_le : (utf8 text).length ≤ 13
  mem_alphabet : ∀ b ∈ utf8 text, b ∈ utf8 ".12345abcdefghijklmnopqrstuvwxyz"
  mem_last : ∀ b, (utf8 text)[12]? = some b → b ∈ utf8 ".12345abcdefghij"

theorem mem_utf8_alphabet {b : UInt8} :
    b ∈ utf8 ".12345abcdefghijklmnopqrstuvwxyz" ↔ ∃ d < 32, b = symbolByte d := by
  have hall : utf8 ".12345abcdefghijklmnopqrstuvwxyz" = (List.range 32).map symbolByte := by
    decide +kernel
  simp only [hall, List.mem_map, List.mem_range, eq_comm]

theorem mem_utf8_last {b : UInt8} :
    b ∈ utf8 ".12345abcdefghij" ↔ ∃ d < 16, b = symbolByte d := by
  have hall : utf8 ".12345abcdefghij" = (List.range 16).map symbolByte := by
    decide +kernel
  simp only [hall, List.mem_map, List.mem_range, eq_comm]

/-- The symbols of a text are those whose characters it has. -/
theorem symbols_eq_ok {text : String} {ds : List Nat} : symbols text = .ok ds ↔
    text = String.ofList (ds.map symbolChar) ∧ (∀ d ∈ ds, d < 32) ∧ ds.length ≤ 13 ∧
      ds.getD 12 0 ≤ 15 := by
  constructor
  · intro h
    rw [symbols] at h
    split at h
    · cases h
    next hlong =>
    obtain ⟨ds', hread, h⟩ := bind_eq_ok.mp h
    split at h
    · cases h
    next hlast =>
    obtain rfl := Except.ok.inj h
    have heach : List.Forall₂ (fun d b => d < 32 ∧ symbolByte d = b) ds' (utf8 text) := by
      refine (mapM_eq_ok_iff.mp hread).flip.imp fun d b hb => ?_
      cases hs : symbol? b with
      | none =>
        rw [hs] at hb
        cases hb
      | some n =>
        rw [hs] at hb
        obtain rfl := Except.ok.inj hb
        exact (symbol?_eq_some.mp hs).imp_right Eq.symm
    obtain ⟨hlt, hmap⟩ := (List.forall₂_and_left ..).mp heach
    have hbytes : ds'.map symbolByte = utf8 text := by
      rwa [← List.forall₂_eq_eq_eq, List.forall₂_map_left_iff]
    refine ⟨?_, hlt, ?_, Nat.not_lt.mp hlast⟩
    · rw [← utf8_inj, utf8_map_symbolChar hlt, hbytes]
    · rw [← List.length_map symbolByte, hbytes]
      exact Nat.not_lt.mp hlong
  · rintro ⟨rfl, hlt, hlength, hlast⟩
    exact symbols_ofList hlt hlength hlast

theorem ofText_eq_ok {text : String} {name : AccountName} : ofText text = .ok name ↔
    ∃ ds, symbols text = .ok ds ∧ name = ⟨UInt64.ofNat (pack13 ds)⟩ := by
  rw [ofText]
  cases symbols text with
  | error e => simp
  | ok ds => simp [eq_comm]

theorem exists_ofText_iff {text : String} :
    (∃ name, ofText text = .ok name) ↔ Readable text := by
  constructor
  · rintro ⟨name, h⟩
    obtain ⟨ds, hds, -⟩ := ofText_eq_ok.mp h
    obtain ⟨rfl, hlt, hlength, hlast⟩ := symbols_eq_ok.mp hds
    have hutf8 := utf8_map_symbolChar hlt
    refine ⟨by rwa [hutf8, List.length_map], fun b hb => ?_, fun b hb => ?_⟩
    · rw [hutf8] at hb
      obtain ⟨d, hd, rfl⟩ := List.mem_map.mp hb
      exact mem_utf8_alphabet.mpr ⟨d, hlt d hd, rfl⟩
    · rw [hutf8, List.getElem?_map] at hb
      obtain ⟨d, hd, rfl⟩ := Option.map_eq_some_iff.mp hb
      rw [List.getD_eq_getElem?_getD, hd] at hlast
      exact mem_utf8_last.mpr ⟨d, Nat.lt_succ_of_le hlast, rfl⟩
  · rintro ⟨hlength, hmem, hlast⟩
    choose! symbolOf hlt hsymbol using fun b hb => mem_utf8_alphabet.mp (hmem b hb)
    have hds : ∀ d ∈ (utf8 text).map symbolOf, d < 32 := by
      intro d hd
      obtain ⟨b, hb, rfl⟩ := List.mem_map.mp hd
      exact hlt b hb
    have htext : text = String.ofList (((utf8 text).map symbolOf).map symbolChar) := by
      rw [← utf8_inj, utf8_map_symbolChar hds, List.map_map]
      exact (List.map_id'' (fun b => rfl) _).symm.trans
        (List.map_congr_left fun b hb => hsymbol b hb)
    have hfour : ((utf8 text).map symbolOf).getD 12 0 ≤ 15 := by
      rw [List.getD_eq_getElem?_getD, List.getElem?_map]
      cases hb : (utf8 text)[12]? with
      | none => exact Nat.zero_le _
      | some b =>
        obtain ⟨d, hd, hbyte⟩ := mem_utf8_last.mp (hlast b hb)
        have hmem := List.mem_of_getElem? hb
        have heq := (symbolByte_lt_iff (hlt b hmem) (Nat.lt_trans hd (by decide))).2.mp
          ((hsymbol b hmem).symm.trans hbyte)
        rw [Option.map_some, Option.getD_some, heq]
        exact Nat.le_of_lt_succ hd
    refine ⟨_, ofText_eq_ok.mpr ⟨_, symbols_eq_ok.mpr ⟨htext, hds, ?_, hfour⟩, rfl⟩⟩
    rwa [List.length_map]

/-! ## Names and their symbols -/

theorem base32_eq_places (width n : Nat) : base32 width n = places 32 width n := by
  induction width generalizing n with
  | zero => rfl
  | succ width ih => rw [base32, ih, places]

theorem ofBase32_concat (ds : List Nat) (d : Nat) :
    ofBase32 (ds ++ [d]) = ofBase32 ds * 32 + d :=
  List.foldl_concat ..

theorem ofBase32_lt {ds : List Nat} (hlt : ∀ d ∈ ds, d < 32) :
    ofBase32 ds < 32 ^ ds.length := by
  induction ds using List.reverseRecOn with
  | nil => exact Nat.one_pos
  | append_singleton ds d ih =>
    simp only [List.forall_mem_append, List.forall_mem_singleton] at hlt
    have hinit := ih hlt.1
    rw [ofBase32_concat, List.length_append, List.length_singleton, Nat.pow_succ]
    omega

theorem base32_ofBase32 {ds : List Nat} (hlt : ∀ d ∈ ds, d < 32) :
    base32 ds.length (ofBase32 ds) = ds := by
  induction ds using List.reverseRecOn with
  | nil => rfl
  | append_singleton ds d ih =>
    simp only [List.forall_mem_append, List.forall_mem_singleton] at hlt
    have hdiv : (ofBase32 ds * 32 + d) / 32 = ofBase32 ds := by omega
    have hmod : (ofBase32 ds * 32 + d) % 32 = d := by omega
    rw [ofBase32_concat, List.length_append, List.length_singleton, base32, hdiv, hmod, ih hlt.1]

/-- Symbols are those of the number that they make, which has 64 bits. -/
theorem unpack13_pack13 {ds : List Nat} (hlt : ∀ d ∈ ds, d < 32) (hlength : ds.length ≤ 13)
    (hlast : ds.getD 12 0 ≤ 15) : pack13 ds < 2 ^ 64 ∧
      unpack13 (pack13 ds) = ds ++ List.replicate (13 - ds.length) 0 := by
  have hall : (ds ++ List.replicate (13 - ds.length) 0).length = 13 := by
    rw [List.length_append, List.length_replicate]
    omega
  have hget := getD_append_zeros ds (13 - ds.length) 12
  have hfull : ∀ d ∈ ds ++ List.replicate (13 - ds.length) 0, d < 32 := by
    intro d hd
    rcases List.mem_append.mp hd with hd | hd
    · exact hlt d hd
    · rw [List.eq_of_mem_replicate hd]
      decide
  rw [pack13]
  generalize ds ++ List.replicate (13 - ds.length) 0 = all at hall hget hfull ⊢
  have htake : (all.take 12).length = 12 := by rw [List.length_take, hall]; rfl
  have hmem : ∀ d ∈ all.take 12, d < 32 := fun d hd => hfull d (List.mem_of_mem_take hd)
  have hbound := ofBase32_lt hmem
  have hread := base32_ofBase32 hmem
  have hsplit : all.take 12 ++ [all.getD 12 0] = all := by
    rw [List.getD_eq_getElem _ _ (by omega), List.take_append_getElem]
    exact List.take_of_length_le (Nat.le_of_eq hall)
  rw [htake] at hbound hread
  have hdiv : (ofBase32 (all.take 12) * 16 + all.getD 12 0) / 16 = ofBase32 (all.take 12) := by
    omega
  have hmod : (ofBase32 (all.take 12) * 16 + all.getD 12 0) % 16 = all.getD 12 0 := by
    omega
  refine ⟨by omega, ?_⟩
  rw [unpack13, hdiv, hmod, hread, hsplit]

/-- The symbols of names stand in the order of the names. -/
theorem unpack13_lt_iff {m n : Nat} (hm : m < 2 ^ 64) (hn : n < 2 ^ 64) :
    unpack13 m < unpack13 n ↔ m < n := by
  have hm' : m / 16 < 32 ^ 12 := by omega
  have hn' : n / 16 < 32 ^ 12 := by omega
  rw [unpack13, unpack13, append_lt_append_iff (by rw [length_base32, length_base32]),
    base32_eq_places, base32_eq_places, places_lt_iff hm' hn', places_inj hm' hn',
    List.cons_lt_cons_iff, lt_iff_div_mod 16 m n]
  simp

/-! ## Dots at the end -/

theorem rdropWhile_append_replicate {α : Type} {p : α → Bool} {a : α} (h : p a = true)
    (l : List α) (k : Nat) : (l ++ List.replicate k a).rdropWhile p = l.rdropWhile p := by
  induction k with
  | zero => rw [List.replicate_zero, List.append_nil]
  | succ k ih =>
    rw [List.replicate_succ', ← List.append_assoc, List.rdropWhile_concat_pos _ _ _ h, ih]

theorem toList_text (name : AccountName) : name.text.toList =
    ((unpack13 name.value.toNat).map symbolChar).rdropWhile (· = '.') := by
  rw [text, String.toList_ofList]
  rfl

theorem getLast?_text (name : AccountName) : ∀ c ∈ name.text.toList.getLast?, c ≠ '.' := by
  rw [toList_text]
  intro c hc hdot
  obtain ⟨hne, hlast⟩ := List.mem_getLast?_eq_getLast hc
  exact List.rdropWhile_last_not _ _ hne (decide_eq_true (hlast ▸ hdot))

theorem length_text_le (name : AccountName) : name.text.length ≤ 13 := by
  rw [← String.length_toList, toList_text]
  refine Nat.le_trans (List.rdropWhile_prefix _ _).length_le ?_
  rw [List.length_map, length_unpack13]

/-- A text is read as the name whose text it is but for dots at its end. -/
theorem toList_text_of_ofText {text : String} {name : AccountName}
    (h : ofText text = .ok name) : name.text.toList = text.toList.rdropWhile (· = '.') := by
  obtain ⟨ds, hds, rfl⟩ := ofText_eq_ok.mp h
  obtain ⟨rfl, hlt, hlength, hlast⟩ := symbols_eq_ok.mp hds
  obtain ⟨hpack, hunpack⟩ := unpack13_pack13 hlt hlength hlast
  have hvalue : (UInt64.ofNat (pack13 ds)).toNat = pack13 ds := UInt64.toNat_ofNat_of_lt' hpack
  rw [toList_text, hvalue, hunpack, List.map_append, List.map_replicate, String.toList_ofList]
  exact rdropWhile_append_replicate rfl _ _

/-! ## Order -/

/-- Names stand in the order of the bytes of their texts. -/
theorem utf8_text_lt_iff {name name' : AccountName} :
    utf8 name.text < utf8 name'.text ↔ name.value < name'.value := by
  have hlast {name : AccountName} {kept : List Nat}
      (htext : name.text = String.ofList (kept.map symbolChar)) :
      ∀ d ∈ kept.getLast?, d ≠ 0 := by
    rintro d hd rfl
    have hdot := name.getLast?_text '.'
    rw [htext, String.toList_ofList, List.getLast?_map, hd] at hdot
    exact hdot rfl rfl
  obtain ⟨kept, zeros, hdigits, htext⟩ := name.text_eq
  obtain ⟨kept', zeros', hdigits', htext'⟩ := name'.text_eq
  have hlt : ∀ d ∈ kept, d < 32 := fun d hd =>
    lt_of_mem_unpack13 (hdigits ▸ List.mem_append_left _ hd)
  have hlt' : ∀ d ∈ kept', d < 32 := fun d hd =>
    lt_of_mem_unpack13 (hdigits' ▸ List.mem_append_left _ hd)
  have hlength : kept.length + zeros = kept'.length + zeros' := by
    have hall := length_unpack13 name.value.toNat
    have hall' := length_unpack13 name'.value.toNat
    rw [hdigits, List.length_append, List.length_replicate] at hall
    rw [hdigits', List.length_append, List.length_replicate] at hall'
    omega
  calc utf8 name.text < utf8 name'.text
      ↔ kept.map symbolByte < kept'.map symbolByte := by
        rw [htext, htext', utf8_map_symbolChar hlt, utf8_map_symbolChar hlt']
    _ ↔ kept < kept' :=
        map_lt_map_iff fun d hd d' hd' => symbolByte_lt_iff (hlt d hd) (hlt' d' hd')
    _ ↔ unpack13 name.value.toNat < unpack13 name'.value.toNat := by
        rw [hdigits, hdigits', filled_lt_iff (hlast htext) (hlast htext') hlength]
    _ ↔ name.value < name'.value := by
        rw [unpack13_lt_iff name.value.toNat_lt name'.value.toNat_lt, UInt64.lt_iff_toNat_lt]

theorem text_lt_iff {name name' : AccountName} :
    name.text < name'.text ↔ name.value < name'.value := by
  have hascii (name : AccountName) : ∀ c ∈ name.text.toList, c.toNat < 128 := by
    obtain ⟨kept, zeros, hdigits, htext⟩ := name.text_eq
    rw [htext, String.toList_ofList]
    intro c hc
    obtain ⟨d, hd, rfl⟩ := List.mem_map.mp hc
    exact (toNat_symbolChar (lt_of_mem_unpack13 (hdigits ▸ List.mem_append_left _ hd))).1
  rw [← utf8_text_lt_iff, String.lt_iff, ← utf8_lt_utf8_iff (hascii name) (hascii name'),
    String.ofList_toList, String.ofList_toList]

/-- **Names are texts, in order.** Every name has a text of at most thirteen characters, the last of
them no dot, and is read back from it. Just the readable texts are read, each as the name whose text
it is but for the dots at its end, so that two of them are one name if they differ in such dots
only. The numbers of names are in the order of the bytes of their texts, which is also the order in
which stores list chains. -/
theorem readable_texts_spell_names :
    (∀ name : AccountName, name.text.length ≤ 13 ∧
      (∀ c ∈ name.text.toList.getLast?, c ≠ '.') ∧ ofText name.text = .ok name) ∧
    (∀ text, (∃ name, ofText text = .ok name) ↔ Readable text) ∧
    (∀ text name, ofText text = .ok name →
      name.text.toList = text.toList.rdropWhile (· = '.')) ∧
    (∀ text text' name name', ofText text = .ok name → ofText text' = .ok name' →
      (name = name' ↔
        text.toList.rdropWhile (· = '.') = text'.toList.rdropWhile (· = '.'))) ∧
    ∀ name name' : AccountName,
      (name.value < name'.value ↔ utf8 name.text < utf8 name'.text) ∧
      (name.value < name'.value ↔ name.text < name'.text) := by
  refine ⟨fun name => ⟨name.length_text_le, name.getLast?_text, name.ofText_text⟩,
    fun _ => exists_ofText_iff, fun _ _ => toList_text_of_ofText,
    fun text text' name name' h h' => ?_, fun _ _ => ⟨utf8_text_lt_iff.symm, text_lt_iff.symm⟩⟩
  rw [← toList_text_of_ofText h, ← toList_text_of_ofText h', String.toList_inj, text_inj]

/-- Dots at the end, and a thirteenth character that needs five bits. -/
theorem readable_texts_spell_names_dotted :
    ∃ name name', ofText "eosio.." = .ok name ∧ ofText "eosio" = .ok name' ∧ name = name' ∧
      name.text.toList = ['e', 'o', 's', 'i', 'o'] ∧
      ¬ ∃ name, ofText "zzzzzzzzzzzzk" = .ok name := by
  obtain ⟨-, hread, hdrop, hsame, -⟩ := readable_texts_spell_names
  have hdotted : Readable "eosio.." := by
    refine ⟨by decide +kernel, by decide +kernel, fun b hb => ?_⟩
    have hnone : (utf8 "eosio..")[12]? = none := by decide +kernel
    exact nomatch hnone.symm.trans hb
  have hplain : Readable "eosio" := by
    refine ⟨by decide +kernel, by decide +kernel, fun b hb => ?_⟩
    have hnone : (utf8 "eosio")[12]? = none := by decide +kernel
    exact nomatch hnone.symm.trans hb
  have hfive : ¬ Readable "zzzzzzzzzzzzk" := fun h =>
    absurd (h.mem_last 0x6b (by decide +kernel)) (by decide +kernel)
  obtain ⟨name, hname⟩ := (hread _).mpr hdotted
  obtain ⟨name', hname'⟩ := (hread _).mpr hplain
  refine ⟨name, name', hname, hname', (hsame _ _ _ _ hname hname').mpr (by decide +kernel), ?_,
    mt (hread _).mp hfive⟩
  rw [hdrop _ _ hname]
  decide +kernel

end LightClient.AccountName

import LightClient.Proofs.Packed.Spelling

/-!
Which bytes a decoder accepts, and with which value. For each way to build a decoder there is a rule
in both directions: what was read is a spelling of the value, and every spelling of it is read.
-/

namespace LightClient

/-- The bytes stand between two places of an input. -/
def Cursor.Takes (c : Cursor) (s : List UInt8) (c' : Cursor) : Prop :=
  c.rest = s ++ c'.rest ∧ c'.position = c.position + s.length

namespace Cursor

variable {c c' : Cursor} {s t : List UInt8}

theorem takes_nil : c.Takes [] c' ↔ c' = c := by
  obtain ⟨position, rest⟩ := c
  obtain ⟨position', rest'⟩ := c'
  simp only [Takes, List.nil_append, List.length_nil, Nat.add_zero, Cursor.mk.injEq]
  exact ⟨fun h => ⟨h.2, h.1.symm⟩, fun h => ⟨h.2.symm, h.1⟩⟩

theorem takes_append : c.Takes (s ++ t) c' ↔ ∃ m, c.Takes s m ∧ m.Takes t c' := by
  constructor
  · rintro ⟨hrest, hposition⟩
    refine ⟨⟨c.position + s.length, t ++ c'.rest⟩, ⟨?_, rfl⟩, rfl, ?_⟩
    · rw [hrest, List.append_assoc]
    · rw [hposition, List.length_append, Nat.add_assoc]
  · rintro ⟨m, ⟨hrest, hposition⟩, hrest', hposition'⟩
    constructor
    · rw [hrest, hrest', List.append_assoc]
    · rw [hposition', hposition, List.length_append, Nat.add_assoc]

end Cursor

namespace Decoder

variable {α β : Type} {d : Decoder α} {f : α → Decoder β}

/-- The decoder accepts just the spellings of values that satisfy `valid`. -/
def Accepts (d : Decoder α) (valid : α → Prop) (parts : α → List Part) : Prop :=
  ∀ ⦃c c' : Cursor⦄ ⦃a : α⦄, d.run c = (.ok a, c') ↔
    valid a ∧ ∃ s, c.Takes s c' ∧ Spelled (parts a) s

theorem run_bind_eq_ok_iff {b : β} {c c'' : Cursor} :
    (d >>= f).run c = (.ok b, c'') ↔
      ∃ a c', d.run c = (.ok a, c') ∧ (f a).run c' = (.ok b, c'') := by
  constructor
  · exact run_bind_eq_ok
  · rintro ⟨a, c', ha, hb⟩
    rwa [run_bind_ok ha]

theorem run_bind_eq_error_iff {e : DecodeError} {c c'' : Cursor} :
    (d >>= f).run c = (.error e, c'') ↔ d.run c = (.error e, c'') ∨
      ∃ a c', d.run c = (.ok a, c') ∧ (f a).run c' = (.error e, c'') := by
  cases hd : d.run c with
  | mk result m =>
    cases result with
    | error e' =>
      rw [run_bind_error hd]
      constructor
      · rintro h
        cases h
        exact .inl rfl
      · rintro (h | ⟨a, c', h, -⟩)
        · cases h
          rfl
        · cases h
    | ok a =>
      rw [run_bind_ok hd]
      constructor
      · exact fun h => .inr ⟨a, m, rfl, h⟩
      · rintro (h | ⟨a', c', h, hf⟩)
        · cases h
        · cases h
          exact hf

namespace Accepts

theorem congr {valid valid' : α → Prop} {parts : α → List Part} (hd : Accepts d valid parts)
    (h : ∀ a, valid a ↔ valid' a) : Accepts d valid' parts := by
  intro c c' a
  rw [← h]
  exact @hd c c' a

theorem pure {a₀ : α} {valid : α → Prop} {parts : α → List Part}
    (h : ∀ a, valid a ↔ a = a₀) (hparts : parts a₀ = []) : Accepts (pure a₀) valid parts := by
  intro c c' a
  change (Except.ok a₀, c) = (Except.ok a, c') ↔ _
  rw [h]
  constructor
  · intro heq
    obtain ⟨ha, rfl⟩ := Prod.mk.inj heq
    obtain rfl := Except.ok.inj ha
    exact ⟨rfl, [], Cursor.takes_nil.mpr rfl, hparts ▸ .nil⟩
  · rintro ⟨rfl, s, hs, hspelled⟩
    rw [hparts] at hspelled
    cases hspelled
    rw [Cursor.takes_nil.mp hs]

/-- A decoder that never succeeds accepts the values of an empty type of values. -/
theorem throw {valid : α → Prop} {parts : α → List Part} (e : DecodeError)
    (h : ∀ a, ¬ valid a) : Accepts (throw e) valid parts := by
  intro c c' a
  constructor
  · intro heq
    exact nomatch heq
  · intro ha
    exact absurd ha.1 (h a)

/-- A value that is read first is a part of the value that is read in the end. -/
theorem field {g : β → α} {valid : β → Prop} {validFirst : α → Prop} {first : α → List Part}
    {rest : β → List Part} (hd : Accepts d validFirst first)
    (hvalid : ∀ b, valid b → validFirst (g b))
    (hf : ∀ a, validFirst a → Accepts (f a) (fun b => valid b ∧ g b = a) rest) :
    Accepts (d >>= f) valid fun b => first (g b) ++ rest b := by
  intro c c'' b
  rw [run_bind_eq_ok_iff]
  simp only [spelled_append]
  constructor
  · rintro ⟨a, c', ha, hb⟩
    obtain ⟨hfirst, s, hs, hspelled⟩ := hd.mp ha
    obtain ⟨⟨hvalid, rfl⟩, t, ht, hspelled'⟩ := (hf a hfirst).mp hb
    exact ⟨hvalid, s ++ t, Cursor.takes_append.mpr ⟨c', hs, ht⟩, s, t, rfl, hspelled, hspelled'⟩
  · rintro ⟨hb, _, htakes, s, t, rfl, hspelled, hspelled'⟩
    obtain ⟨c', hs, ht⟩ := Cursor.takes_append.mp htakes
    have hfirst := hvalid b hb
    exact ⟨g b, c', hd.mpr ⟨hfirst, s, hs, hspelled⟩,
      (hf _ hfirst).mpr ⟨⟨hb, rfl⟩, t, ht, hspelled'⟩⟩

/-- The values read, in another form. -/
theorem map {g : α → β} {valid : α → Prop} {valid' : β → Prop} {parts : α → List Part}
    {parts' : β → List Part} (hd : Accepts d valid parts)
    (hvalid : ∀ b, valid' b ↔ ∃ a, valid a ∧ g a = b)
    (hparts : ∀ a, valid a → parts' (g a) = parts a) : Accepts (g <$> d) valid' parts' := by
  intro c c' b
  have hrun : (g <$> d).run c = (.ok b, c') ↔ ∃ a, d.run c = (.ok a, c') ∧ g a = b := by
    refine (run_bind_eq_ok_iff (f := fun a => Pure.pure (g a))).trans ?_
    constructor
    · rintro ⟨a, m, ha, hpure⟩
      obtain ⟨heq, rfl⟩ := Prod.mk.inj hpure
      exact ⟨a, ha, Except.ok.inj heq⟩
    · rintro ⟨a, ha, rfl⟩
      exact ⟨a, c', ha, rfl⟩
  rw [hrun, hvalid]
  constructor
  · rintro ⟨a, ha, rfl⟩
    obtain ⟨ha, s, hs, hspelled⟩ := hd.mp ha
    exact ⟨⟨a, ha, rfl⟩, s, hs, hparts a ha ▸ hspelled⟩
  · rintro ⟨⟨a, ha, rfl⟩, s, hs, hspelled⟩
    exact ⟨a, hd.mpr ⟨ha, s, hs, hparts a ha ▸ hspelled⟩, rfl⟩

/-! ## Bytes and numbers -/

theorem sized (n : Nat) (field : String) :
    Accepts (sized n field) (fun _ => True) fun b => [.bytes b.1] := by
  intro c c' bytes
  constructor
  · intro h
    exact ⟨trivial, bytes.1, run_sized_eq_ok h, spelled_singleton.mpr (.bytes _)⟩
  · rintro ⟨-, s, ⟨hrest, hposition⟩, hspelled⟩
    cases spelled_singleton.mp hspelled
    obtain ⟨position, rest⟩ := c
    obtain ⟨position', rest'⟩ := c'
    simp only at hrest hposition
    rw [hrest, reads_sized, hposition]

theorem exact (n : Nat) (field : String) :
    Accepts (exact n field) (·.length = n) fun bytes => [.bytes bytes] := by
  intro c c' bytes
  constructor
  · intro h
    obtain ⟨⟨b, hb⟩, m, hsized, hpure⟩ := run_bind_eq_ok h
    obtain ⟨hbytes, rfl⟩ := Prod.mk.inj hpure
    obtain rfl : b = bytes := Except.ok.inj hbytes
    exact ⟨hb, ((sized n field).mp hsized).2⟩
  · rintro ⟨hlen, hs⟩
    have hsized : (Decoder.sized n field).run c = (.ok ⟨bytes, hlen⟩, c') :=
      (sized n field).mpr ⟨trivial, hs⟩
    exact run_bind_ok hsized

theorem fixed (width : Nat) (field : String) :
    Accepts (fixed width field) (· < 256 ^ width) fun n => [.bytes (littleEndian width n)] := by
  refine (exact width field).map (fun n => ?_) ?_
  · constructor
    · intro hn
      refine ⟨littleEndian width n, length_littleEndian .., ?_⟩
      rw [ofLittleEndian_littleEndian, Nat.mod_eq_of_lt hn]
    · rintro ⟨bytes, rfl, rfl⟩
      exact ofLittleEndian_lt bytes
  · rintro bytes rfl
    rw [littleEndian_ofLittleEndian]

theorem number {ofNat : Nat → α} {toNat : α → Nat} (width : Nat) (field : String)
    (hto : ∀ n < 256 ^ width, toNat (ofNat n) = n) (hlt : ∀ a, toNat a < 256 ^ width)
    (hback : ∀ a, ofNat (toNat a) = a) :
    Accepts (ofNat <$> Decoder.fixed width field) (fun _ => True)
      fun a => [.bytes (littleEndian width (toNat a))] := by
  refine (fixed width field).map (fun a => ?_) ?_
  · exact ⟨fun _ => ⟨toNat a, hlt a, hback a⟩, fun _ => trivial⟩
  · intro n hn
    rw [hto n hn]

theorem u8 (field : String) :
    Accepts (u8 field) (fun _ => True) fun n => [.bytes (littleEndian 1 n.toNat)] :=
  number 1 field (fun _ => UInt8.toNat_ofNat_of_lt') UInt8.toNat_lt fun _ => UInt8.ofNat_toNat

theorem u16 (field : String) :
    Accepts (u16 field) (fun _ => True) fun n => [.bytes (littleEndian 2 n.toNat)] :=
  number 2 field (fun _ => UInt16.toNat_ofNat_of_lt') UInt16.toNat_lt fun _ => UInt16.ofNat_toNat

theorem u32 (field : String) :
    Accepts (u32 field) (fun _ => True) fun n => [.bytes (littleEndian 4 n.toNat)] :=
  number 4 field (fun _ => UInt32.toNat_ofNat_of_lt') UInt32.toNat_lt fun _ => UInt32.ofNat_toNat

theorem u64 (field : String) :
    Accepts (u64 field) (fun _ => True) fun n => [.bytes (littleEndian 8 n.toNat)] :=
  number 8 field (fun _ => UInt64.toNat_ofNat_of_lt') UInt64.toNat_lt fun _ => UInt64.ofNat_toNat

/-! ## Varuints and what they count -/

theorem run_byte_eq_ok_iff {field : String} {n : Nat} {c c' : Cursor} :
    (Decoder.fixed 1 field).run c = (.ok n, c') ↔ n < 256 ∧ c.Takes [UInt8.ofNat n] c' := by
  rw [fixed 1 field]
  constructor
  · rintro ⟨hn, s, hs, hspelled⟩
    cases spelled_singleton.mp hspelled
    exact ⟨hn, hs⟩
  · rintro ⟨hn, hs⟩
    exact ⟨hn, _, hs, spelled_singleton.mpr (.bytes _)⟩

/-- A number that is read was written in as many groups as it took. -/
theorem takes_of_run_varuintFrom {field : String} {groups weight value : Nat} {n : UInt32}
    {c c' : Cursor} (h : (varuintFrom field groups weight value).run c = (.ok n, c')) :
    ∃ more < groups, ∃ k < 128 ^ (more + 1), value + k * weight < UInt32.size ∧
      n = UInt32.ofNat (value + k * weight) ∧ c.Takes (paddedGroups more k) c' := by
  induction groups generalizing weight value c with
  | zero => cases h
  | succ groups ih =>
    rw [varuintFrom, run_bind_eq_ok_iff] at h
    simp only [run_byte_eq_ok_iff] at h
    obtain ⟨byte, m, ⟨hbyte, htakes⟩, h⟩ := h
    by_cases hlow : byte < 128
    · rw [if_pos hlow, Nat.mod_eq_of_lt hlow] at h
      split at h
      · next hsize =>
        obtain ⟨hn, rfl⟩ := Prod.mk.inj h
        exact ⟨0, Nat.succ_pos _, byte, by simpa using hlow, hsize, (Except.ok.inj hn).symm,
          htakes⟩
      · cases h
    · rw [if_neg hlow] at h
      obtain ⟨more, hmore, k, hk, hsize, rfl, htakes'⟩ := ih h
      have hsum : value + byte % 128 * weight + k * (weight * 128) =
          value + (byte % 128 + 128 * k) * weight := by ring
      have hmod : (byte % 128 + 128 * k) % 128 + 128 = byte := by omega
      have hdiv : (byte % 128 + 128 * k) / 128 = k := by omega
      rw [hsum] at hsize ⊢
      refine ⟨more + 1, Nat.succ_lt_succ hmore, byte % 128 + 128 * k, ?_, hsize, rfl, ?_⟩
      · rw [Nat.pow_succ]
        omega
      · rw [paddedGroups, hmod, hdiv, ← List.singleton_append]
        exact Cursor.takes_append.mpr ⟨m, htakes, htakes'⟩

/-- A number is read from any groups that are not too many. -/
theorem run_varuintFrom_of_takes {field : String} {groups weight value more k : Nat}
    {c c' : Cursor} (hmore : more < groups) (hk : k < 128 ^ (more + 1))
    (hsize : value + k * weight < UInt32.size) (htakes : c.Takes (paddedGroups more k) c') :
    (varuintFrom field groups weight value).run c =
      (.ok (UInt32.ofNat (value + k * weight)), c') := by
  induction groups generalizing weight value more k c with
  | zero => exact absurd hmore (Nat.not_lt_zero more)
  | succ groups ih =>
    rw [varuintFrom, run_bind_eq_ok_iff]
    simp only [run_byte_eq_ok_iff]
    cases more with
    | zero =>
      have hlow : k < 128 := by simpa using hk
      refine ⟨k, c', ⟨by omega, htakes⟩, ?_⟩
      rw [if_pos hlow, Nat.mod_eq_of_lt hlow, if_pos hsize]
      rfl
    | succ more =>
      rw [paddedGroups, ← List.singleton_append] at htakes
      obtain ⟨m, htakes, htakes'⟩ := Cursor.takes_append.mp htakes
      have hmod : (k % 128 + 128) % 128 = k % 128 := by omega
      have hsum : value + k * weight = value + k % 128 * weight + k / 128 * (weight * 128) := by
        conv => lhs; rw [← Nat.mod_add_div k 128]
        ring
      have hdiv : k / 128 < 128 ^ (more + 1) := by
        rw [Nat.pow_succ] at hk
        exact Nat.div_lt_of_lt_mul (by omega)
      refine ⟨k % 128 + 128, m, ⟨by omega, htakes⟩, ?_⟩
      rw [hsum] at hsize ⊢
      rw [if_neg (by omega), hmod, ih (Nat.lt_of_succ_lt_succ hmore) hdiv hsize htakes']

/-- The groups that are left give a number, which counts by its weight. -/
theorem run_varuintFrom_eq_ok_iff {field : String} {groups weight value : Nat} {n : UInt32}
    {c c' : Cursor} : (varuintFrom field groups weight value).run c = (.ok n, c') ↔
      ∃ more < groups, ∃ k < 128 ^ (more + 1), value + k * weight < UInt32.size ∧
        n = UInt32.ofNat (value + k * weight) ∧ c.Takes (paddedGroups more k) c' := by
  refine ⟨takes_of_run_varuintFrom, ?_⟩
  rintro ⟨more, hmore, k, hk, hsize, rfl, htakes⟩
  exact run_varuintFrom_of_takes hmore hk hsize htakes

theorem varuint32 (field : String) :
    Accepts (varuint32 field) (fun _ => True) fun n => [.varuint n] := by
  intro c c' n
  rw [Decoder.varuint32, run_varuintFrom_eq_ok_iff]
  simp only [Nat.zero_add, Nat.mul_one, true_and, spelled_singleton]
  constructor
  · rintro ⟨more, hmore, k, hk, hsize, rfl, htakes⟩
    have hk' : (UInt32.ofNat k).toNat = k := UInt32.toNat_ofNat_of_lt' hsize
    refine ⟨_, htakes, ?_⟩
    have hspelled := Part.Spelled.varuint (.ofNat k) more (Nat.le_of_lt_succ hmore)
    rw [hk'] at hspelled
    exact hspelled hk
  · rintro ⟨s, htakes, hspelled⟩
    cases hspelled with
    | varuint _ more hmore hn =>
      exact ⟨more, Nat.lt_succ_of_le hmore, n.toNat, hn, n.toNat_lt, UInt32.ofNat_toNat.symm,
        htakes⟩

theorem run_length_eq_ok_iff {field : String} {minSize n : Nat} {c c' : Cursor} :
    (length field minSize).run c = (.ok n, c') ↔
      ∃ k : UInt32, k.toNat = n ∧ n * minSize ≤ c'.remaining ∧
        ∃ s, c.Takes s c' ∧ Spelled [.varuint k] s := by
  rw [length, run_bind_eq_ok_iff]
  constructor
  · rintro ⟨k, m, hk, h⟩
    rw [run_get_bind] at h
    split at h
    · cases h
    · next hroom =>
      obtain ⟨hn, rfl⟩ := Prod.mk.inj h
      obtain rfl : k.toNat = n := Except.ok.inj hn
      exact ⟨k, rfl, Nat.not_lt.mp hroom, ((varuint32 field).mp hk).2⟩
  · rintro ⟨k, rfl, hroom, hs⟩
    refine ⟨k, c', (varuint32 field).mpr ⟨trivial, hs⟩, ?_⟩
    rw [run_get_bind, if_neg (Nat.not_lt.mpr hroom)]
    rfl

/-- A length is checked against the bytes left, which rejects nothing if the items that it counts
take at least the bytes that it is checked for. -/
theorem counted {minSize : Nat} {count : β → Nat} {valid : β → Prop} {rest : β → List Part}
    {f : Nat → Decoder β} (field : String)
    (hf : ∀ n, Accepts (f n) (fun b => valid b ∧ count b = n) rest)
    (hsize : ∀ b, valid b → count b * minSize ≤ ((rest b).flatMap Part.packed).length) :
    Accepts (length field minSize >>= f) (fun b => count b < UInt32.size ∧ valid b)
      fun b => .varuint (lengthPrefix (count b)) :: rest b := by
  have hcount {k : UInt32} {n : Nat} (h : k.toNat = n) : lengthPrefix n = k := by
    rw [← h, lengthPrefix, if_pos k.toNat_lt, UInt32.ofNat_toNat]
  intro c c'' b
  rw [run_bind_eq_ok_iff]
  constructor
  · rintro ⟨n, c', hlength, hb⟩
    obtain ⟨k, hk, -, s, hs, hspelled⟩ := run_length_eq_ok_iff.mp hlength
    obtain ⟨⟨hvalid, rfl⟩, t, ht, hspelled'⟩ := (hf n).mp hb
    refine ⟨⟨hk ▸ k.toNat_lt, hvalid⟩, s ++ t, Cursor.takes_append.mpr ⟨c', hs, ht⟩, ?_⟩
    simp only [hcount hk]
    exact .cons (spelled_singleton.mp hspelled) hspelled'
  · rintro ⟨⟨hlt, hvalid⟩, _, htakes, hspelled⟩
    cases hspelled with
    | @cons _ _ s t hs ht =>
      obtain ⟨c', htakes, htakes'⟩ := Cursor.takes_append.mp htakes
      have hk : (lengthPrefix (count b)).toNat = count b := by
        rw [lengthPrefix, if_pos hlt, UInt32.toNat_ofNat_of_lt' hlt]
      have hroom : count b * minSize ≤ c'.remaining := by
        have hpacked := Nat.le_trans (hsize b hvalid) ht.length_le
        rw [Cursor.remaining, htakes'.1, List.length_append]
        omega
      have hlength : (length field minSize).run c = (.ok (count b), c') :=
        run_length_eq_ok_iff.mpr ⟨_, hk, hroom, s, htakes, spelled_singleton.mpr hs⟩
      exact ⟨count b, c', hlength, (hf _).mpr ⟨⟨hvalid, rfl⟩, t, htakes', ht⟩⟩

theorem bytes (field : String) :
    Accepts (bytes field) (·.length < UInt32.size)
      fun data => [.varuint (lengthPrefix data.length), .bytes data] := by
  have h : Accepts (Decoder.bytes field) (fun data => data.length < UInt32.size ∧ True)
      fun data => [.varuint (lengthPrefix data.length), .bytes data] :=
    counted field (fun n => (exact n field).congr fun _ => iff_of_eq (true_and _).symm)
      fun data _ => by simp [Part.packed]
  exact h.congr fun _ => iff_of_eq (and_true _)

/-- The items of a list are read one after the other. -/
theorem replicate {item : Decoder α} {valid : α → Prop} {parts : α → List Part}
    (h : Accepts item valid parts) (n : Nat) :
    Accepts (replicate item n) (fun items => (∀ a ∈ items, valid a) ∧ items.length = n)
      fun items => items.flatMap parts := by
  induction n with
  | zero =>
    refine pure (fun items => ?_) rfl
    rw [List.length_eq_zero_iff, and_iff_right_iff_imp]
    rintro rfl
    exact List.forall_mem_nil _
  | succ n ih =>
    intro c c'' items
    simp only [Decoder.replicate, run_bind_eq_ok_iff]
    constructor
    · rintro ⟨a, c', ha, items', m, hitems, hpure⟩
      obtain ⟨heq, rfl⟩ := Prod.mk.inj hpure
      obtain rfl : a :: items' = items := Except.ok.inj heq
      obtain ⟨hvalid, s, hs, hspelled⟩ := h.mp ha
      obtain ⟨⟨hvalid', rfl⟩, t, ht, hspelled'⟩ := ih.mp hitems
      refine ⟨⟨List.forall_mem_cons.mpr ⟨hvalid, hvalid'⟩, rfl⟩, s ++ t,
        Cursor.takes_append.mpr ⟨c', hs, ht⟩, ?_⟩
      exact spelled_append.mpr ⟨s, t, rfl, hspelled, hspelled'⟩
    · rintro ⟨⟨hvalid, hlen⟩, _, htakes, hspelled⟩
      cases items with
      | nil => exact nomatch hlen
      | cons a items =>
        obtain ⟨s, t, rfl, hs, ht⟩ := spelled_append.mp hspelled
        obtain ⟨c', htakes, htakes'⟩ := Cursor.takes_append.mp htakes
        obtain ⟨hvalid, hvalid'⟩ := List.forall_mem_cons.mp hvalid
        exact ⟨a, c', h.mpr ⟨hvalid, s, htakes, hs⟩, items, c'',
          ih.mpr ⟨⟨hvalid', Nat.succ.inj hlen⟩, t, htakes', ht⟩, rfl⟩

end Accepts

end Decoder

end LightClient

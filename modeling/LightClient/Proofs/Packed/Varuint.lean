import LightClient.Proofs.Packed.Accepts

/-!
Which bytes are a varuint, what is read of those that are none, and how far. The bytes left at a
place start in one of three ways: with at most four bytes that go on and one that does not, with
five that go on, or they end before either.
-/

namespace LightClient

theorem Cursor.advance_append (position : Nat) (s t : List UInt8) :
    (⟨position, s ++ t⟩ : Cursor).advance s.length = ⟨position + s.length, t⟩ := by
  rw [advance, List.drop_left]

/-! ## Groups of seven bits -/

/-- The number that groups of seven bits stand for, the lowest first. -/
def ofGroups : List UInt8 → Nat
  | [] => 0
  | b :: bytes => b.toNat % 128 + 128 * ofGroups bytes

theorem ofGroups_append (s t : List UInt8) :
    ofGroups (s ++ t) = ofGroups s + 128 ^ s.length * ofGroups t := by
  induction s with
  | nil => simp [ofGroups]
  | cons b s ih =>
    rw [List.cons_append, ofGroups, ih, ofGroups, List.length_cons]
    ring

theorem ofGroups_lt (s : List UInt8) : ofGroups s < 128 ^ s.length := by
  induction s with
  | nil => exact Nat.one_pos
  | cons b s ih =>
    rw [ofGroups, List.length_cons, Nat.pow_succ]
    omega

/-- The bytes have their high bits set. -/
def GoOn (bytes : List UInt8) : Prop :=
  ∀ b ∈ bytes, 128 ≤ b.toNat

/-- At most five bytes, of which all but the last and only those have the high bit set, and whose
groups of seven bits make the number. -/
structure IsVaruint (s : List UInt8) (n : UInt32) : Prop where
  length_le : s.length ≤ 5
  goOn_dropLast : GoOn s.dropLast
  last_lt : ∃ b ∈ s.getLast?, b.toNat < 128
  ofGroups_eq : ofGroups s = n.toNat

theorem isVaruint_concat {front : List UInt8} {last : UInt8} {n : UInt32} :
    IsVaruint (front ++ [last]) n ↔ front.length < 5 ∧ GoOn front ∧ last.toNat < 128 ∧
      ofGroups (front ++ [last]) = n.toNat := by
  constructor
  · rintro ⟨hlength, hfront, hlast, hvalue⟩
    rw [List.length_append] at hlength
    rw [List.dropLast_concat] at hfront
    simp only [List.getLast?_concat, Option.mem_some_iff, exists_eq_left'] at hlast
    exact ⟨hlength, hfront, hlast, hvalue⟩
  · rintro ⟨hlength, hfront, hlast, hvalue⟩
    refine ⟨?_, ?_, ⟨last, List.getLast?_concat, hlast⟩, hvalue⟩
    · rw [List.length_append]
      exact hlength
    · rwa [List.dropLast_concat]

theorem isVaruint_ofGroups {front : List UInt8} {last : UInt8} (hlength : front.length < 5)
    (hfront : GoOn front) (hlast : last.toNat < 128)
    (hsize : ofGroups (front ++ [last]) < UInt32.size) :
    IsVaruint (front ++ [last]) (.ofNat (ofGroups (front ++ [last]))) :=
  isVaruint_concat.mpr ⟨hlength, hfront, hlast, (UInt32.toNat_ofNat_of_lt' hsize).symm⟩

theorem IsVaruint.exists_concat {s : List UInt8} {n : UInt32} (h : IsVaruint s n) :
    ∃ front last, s = front ++ [last] := by
  obtain ⟨last, hlast, -⟩ := h.last_lt
  obtain ⟨front, hs⟩ := List.getLast?_eq_some_iff.mp hlast
  exact ⟨front, last, hs⟩

/-- The bytes end before a varuint does. -/
structure CutShort (bytes : List UInt8) : Prop where
  length_lt : bytes.length < 5
  goOn : GoOn bytes

/-- The bytes start with some that go on and then one that does not, or with too many that go on, or
there are not that many. -/
theorem goOn_cases (limit : Nat) (bytes : List UInt8) :
    (∃ front last rest, bytes = front ++ [last] ++ rest ∧ front.length < limit ∧ GoOn front ∧
      last.toNat < 128) ∨
    (∃ front rest, bytes = front ++ rest ∧ front.length = limit ∧ GoOn front) ∨
    (bytes.length < limit ∧ GoOn bytes) := by
  induction limit generalizing bytes with
  | zero => exact .inr (.inl ⟨[], bytes, rfl, rfl, List.forall_mem_nil _⟩)
  | succ limit ih =>
    cases bytes with
    | nil => exact .inr (.inr ⟨Nat.succ_pos limit, List.forall_mem_nil _⟩)
    | cons b bytes =>
      by_cases hlow : b.toNat < 128
      · exact .inl ⟨[], b, bytes, rfl, Nat.succ_pos limit, List.forall_mem_nil _, hlow⟩
      · have hgo {front : List UInt8} (h : GoOn front) : GoOn (b :: front) :=
          List.forall_mem_cons.mpr ⟨Nat.not_lt.mp hlow, h⟩
        rcases ih bytes with ⟨front, last, rest, rfl, hlength, hfront, hlast⟩ |
          ⟨front, rest, rfl, rfl, hfront⟩ | ⟨hlength, hbytes⟩
        · exact .inl ⟨b :: front, last, rest, rfl, Nat.succ_lt_succ hlength, hgo hfront, hlast⟩
        · exact .inr (.inl ⟨b :: front, rest, rfl, rfl, hgo hfront⟩)
        · exact .inr (.inr ⟨Nat.succ_lt_succ hlength, hgo hbytes⟩)

/-! ## What is read -/

namespace Decoder

variable {field : String} {front rest : List UInt8} {last : UInt8} {position : Nat}

/-- Bytes that go on are read one after the other, and their groups added to the value. -/
theorem run_varuintFrom_front (hfront : GoOn front) (groups weight value : Nat) :
    (varuintFrom field (front.length + groups) weight value).run ⟨position, front ++ rest⟩ =
      (varuintFrom field groups (128 ^ front.length * weight)
        (value + ofGroups front * weight)).run ⟨position + front.length, rest⟩ := by
  induction front generalizing weight value position with
  | nil => simp [ofGroups]
  | cons b front ih =>
    obtain ⟨hb, hfront⟩ := List.forall_mem_cons.mp hfront
    have hbyte := reads_byte field b.toNat_lt position (front ++ rest)
    rw [UInt8.ofNat_toNat] at hbyte
    have hweight : 128 ^ front.length * (weight * 128) = 128 ^ (front.length + 1) * weight := by
      ring
    have hvalue : value + b.toNat % 128 * weight + ofGroups front * (weight * 128) =
        value + (b.toNat % 128 + 128 * ofGroups front) * weight := by ring
    rw [List.length_cons, Nat.add_right_comm, varuintFrom, List.cons_append,
      ← List.singleton_append, run_bind_ok hbyte]
    simp only [if_neg (Nat.not_lt.mpr hb)]
    rw [ih hfront, hweight, hvalue, ofGroups, List.length_singleton]
    ac_rfl

/-- With a byte that does not go on a number is complete, but it may have more than 32 bits. -/
theorem run_varuint32_last (hlength : front.length < 5) (hfront : GoOn front)
    (hlast : last.toNat < 128) :
    (varuint32 field).run ⟨position, front ++ [last] ++ rest⟩ =
      (if ofGroups (front ++ [last]) < UInt32.size
        then .ok (UInt32.ofNat (ofGroups (front ++ [last]))) else .error (.invalidVaruint field),
        ⟨position + (front ++ [last]).length, rest⟩) := by
  obtain ⟨more, hmore⟩ : ∃ more, 5 = front.length + (more + 1) := ⟨4 - front.length, by omega⟩
  have hbyte := reads_byte field last.toNat_lt (position + front.length) rest
  rw [UInt8.ofNat_toNat] at hbyte
  have hvalue : 0 + ofGroups front * 1 + last.toNat * (128 ^ front.length * 1) =
      ofGroups (front ++ [last]) := by
    rw [ofGroups_append, ofGroups, ofGroups, Nat.mod_eq_of_lt hlast]
    ring
  rw [varuint32, hmore, List.append_assoc, run_varuintFrom_front hfront, varuintFrom,
    run_bind_ok hbyte]
  simp only [if_pos hlast, Nat.mod_eq_of_lt hlast, hvalue, List.length_append, ← Nat.add_assoc]
  split <;> rfl

/-- Five bytes that go on are too many. -/
theorem run_varuint32_long (hlength : front.length = 5) (hfront : GoOn front) :
    (varuint32 field).run ⟨position, front ++ rest⟩ =
      (.error (.invalidVaruint field), ⟨position + 5, rest⟩) := by
  have hrun : (varuintFrom field (front.length + 0) 1 0).run ⟨position, front ++ rest⟩ = _ :=
    run_varuintFrom_front hfront 0 1 0
  rw [hlength] at hrun
  exact hrun

/-- Bytes that all go on are read to their end. -/
theorem run_varuint32_cut (hlength : front.length < 5) (hfront : GoOn front) :
    (varuint32 field).run ⟨position, front⟩ =
      (.error (.unexpectedEnd field), ⟨position + front.length, []⟩) := by
  obtain ⟨more, hmore⟩ : ∃ more, 5 = front.length + (more + 1) := ⟨4 - front.length, by omega⟩
  have hrun : (varuintFrom field (front.length + (more + 1)) 1 0).run ⟨position, front ++ []⟩ = _ :=
    run_varuintFrom_front hfront (more + 1) 1 0
  rw [List.append_nil, ← hmore] at hrun
  exact hrun

variable {c c' : Cursor} {n : UInt32}

/-- **Just varuints are read.** -/
theorem run_varuint32_eq_ok_iff : (varuint32 field).run c = (.ok n, c') ↔
    ∃ s, s <+: c.rest ∧ IsVaruint s n ∧ c' = c.advance s.length := by
  obtain ⟨position, bytes⟩ := c
  constructor
  · intro h
    rcases goOn_cases 5 bytes with ⟨front, last, rest, rfl, hlength, hfront, hlast⟩ |
      ⟨front, rest, rfl, hlength, hfront⟩ | ⟨hlength, hfront⟩
    · rw [run_varuint32_last hlength hfront hlast] at h
      split at h
      · next hsize =>
        obtain ⟨hn, rfl⟩ := Prod.mk.inj h
        obtain rfl := Except.ok.inj hn
        exact ⟨front ++ [last], ⟨rest, rfl⟩, isVaruint_ofGroups hlength hfront hlast hsize,
          (Cursor.advance_append ..).symm⟩
      · cases h
    · rw [run_varuint32_long hlength hfront] at h
      cases h
    · rw [run_varuint32_cut hlength hfront] at h
      cases h
  · rintro ⟨s, ⟨rest, rfl⟩, hs, rfl⟩
    obtain ⟨front, last, rfl⟩ := hs.exists_concat
    obtain ⟨hlength, hfront, hlast, hvalue⟩ := isVaruint_concat.mp hs
    rw [Cursor.advance_append, run_varuint32_last hlength hfront hlast, hvalue, if_pos n.toNat_lt,
      UInt32.ofNat_toNat]

/-- The spellings of a number, padded or not, are the varuints that make it. -/
theorem spelled_varuint_iff {s : List UInt8} : (Part.varuint n).Spelled s ↔ IsVaruint s n := by
  have hspelled := @Accepts.varuint32 "" ⟨0, s⟩ ⟨s.length, []⟩ n
  rw [run_varuint32_eq_ok_iff] at hspelled
  simp only [true_and, spelled_singleton] at hspelled
  constructor
  · intro h
    obtain ⟨t, ⟨rest, rfl⟩, ht, hplace⟩ :=
      hspelled.mpr ⟨s, ⟨(List.append_nil s).symm, (Nat.zero_add _).symm⟩, h⟩
    rw [Cursor.advance_append] at hplace
    obtain rfl : [] = rest := (Cursor.mk.inj hplace).2
    rwa [List.append_nil]
  · intro h
    have hplace : (⟨s.length, []⟩ : Cursor) = Cursor.advance ⟨0, s⟩ s.length := by
      rw [Cursor.advance, List.drop_length, Nat.zero_add]
    obtain ⟨t, ⟨hs, -⟩, ht⟩ := hspelled.mp ⟨s, List.prefix_rfl, h, hplace⟩
    obtain rfl : s = t := hs.trans (List.append_nil t)
    exact ht

theorem run_varuint32_of_cutShort (h : CutShort c.rest) :
    (varuint32 field).run c = (.error (.unexpectedEnd field), c.advance c.remaining) := by
  rw [Cursor.advance, Cursor.remaining, List.drop_length]
  exact run_varuint32_cut h.length_lt h.goOn

/-- Whatever is neither a varuint nor the start of one is refused after five bytes. -/
theorem run_varuint32_refused (hcut : ¬ CutShort c.rest)
    (hnone : ¬ ∃ s n, s <+: c.rest ∧ IsVaruint s n) : 5 ≤ c.remaining ∧
      (varuint32 field).run c = (.error (.invalidVaruint field), c.advance 5) := by
  obtain ⟨position, bytes⟩ := c
  rw [Cursor.remaining]
  rcases goOn_cases 5 bytes with ⟨front, last, rest, rfl, hlength, hfront, hlast⟩ |
    ⟨front, rest, rfl, hlength, hfront⟩ | ⟨hlength, hfront⟩
  · have hsize : ¬ ofGroups (front ++ [last]) < UInt32.size := fun hsize =>
      hnone ⟨_, _, ⟨rest, rfl⟩, isVaruint_ofGroups hlength hfront hlast hsize⟩
    -- Four groups make no number of more than 28 bits, so there are five.
    have hfive : (front ++ [last]).length = 5 := by
      have hlt := ofGroups_lt (front ++ [last])
      rw [List.length_append, List.length_singleton] at hlt ⊢
      by_contra hne
      have hpow : 128 ^ (front.length + 1) ≤ 128 ^ 4 :=
        Nat.pow_le_pow_right (by decide) (by omega)
      rw [UInt32.size] at hsize
      omega
    rw [run_varuint32_last hlength hfront hlast, if_neg hsize, ← hfive, Cursor.advance_append]
    exact ⟨(List.prefix_append ..).length_le, rfl⟩
  · rw [run_varuint32_long hlength hfront, ← hlength, Cursor.advance_append]
    exact ⟨(List.prefix_append ..).length_le, rfl⟩
  · exact absurd ⟨hlength, hfront⟩ hcut

/-- Five groups that make a number of 33 bits. -/
example : (varuint32 "length").run (.start [255, 255, 255, 255, 31, 7]) =
    (.error (.invalidVaruint "length"), ⟨5, [7]⟩) := by
  change @Eq (Except DecodeError UInt32 × Cursor) _ _
  decide

end Decoder

end LightClient

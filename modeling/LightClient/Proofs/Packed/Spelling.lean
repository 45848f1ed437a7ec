import LightClient.Proofs.Packed.Stable

/-!
Spellings of packed values. What a decoder accepts is cut into parts: bytes with one spelling, and
varuints, which may be padded with groups of zero. For each way to build a decoder there is a rule
that says which spellings it accepts.
-/

namespace LightClient

/-- A number in groups of seven bits, lowest first, with exactly `more` groups behind the first. -/
def paddedGroups : Nat → Nat → List UInt8
  | 0, n => [UInt8.ofNat n]
  | more + 1, n => UInt8.ofNat (n % 128 + 128) :: paddedGroups more (n / 128)

/-- A part of a packed value. -/
inductive Part where
  /-- Bytes that have no other spelling. -/
  | bytes (data : List UInt8)
  | varuint (n : UInt32)

namespace Part

def packed : Part → List UInt8
  | .bytes data => data
  | .varuint n => LightClient.varuint n

/-- The spellings of a part. A varuint has as many groups as the number needs, or more, up to
five. -/
inductive Spelled : Part → List UInt8 → Prop
  | bytes (data : List UInt8) : Spelled (.bytes data) data
  | varuint (n : UInt32) (more : Nat) (hmore : more ≤ 4) (hn : n.toNat < 128 ^ (more + 1)) :
    Spelled (.varuint n) (paddedGroups more n.toNat)

end Part

/-- The bytes are spellings of the parts, one after the other. -/
inductive Spelled : List Part → List UInt8 → Prop
  | nil : Spelled [] []
  | cons {part : Part} {parts : List Part} {s t : List UInt8} :
    part.Spelled s → Spelled parts t → Spelled (part :: parts) (s ++ t)

section Spellings

variable {part : Part} {parts more : List Part} {s t : List UInt8}

theorem spelled_singleton : Spelled [part] s ↔ part.Spelled s := by
  constructor
  · intro h
    cases h with
    | cons hs ht =>
      cases ht
      rwa [List.append_nil]
  · intro h
    simpa using Spelled.cons h .nil

theorem spelled_append :
    Spelled (parts ++ more) s ↔ ∃ t u, s = t ++ u ∧ Spelled parts t ∧ Spelled more u := by
  constructor
  · intro h
    induction parts generalizing s with
    | nil => exact ⟨[], s, rfl, .nil, h⟩
    | cons part parts ih =>
      cases h with
      | cons hpart hrest =>
        obtain ⟨t, u, rfl, ht, hu⟩ := ih hrest
        exact ⟨_, u, (List.append_assoc ..).symm, .cons hpart ht, hu⟩
  · rintro ⟨t, u, rfl, ht, hu⟩
    induction ht with
    | nil => exact hu
    | cons hpart _ ih =>
      rw [List.append_assoc]
      exact .cons hpart ih

/-! ## The shortest spelling -/

/-- Padding a number only makes it longer: with as many groups as the shortest form has, it is the
shortest form. -/
theorem paddedGroups_cases {limit extra n : Nat} (hle : extra ≤ limit)
    (hn : n < 128 ^ (extra + 1)) :
    paddedGroups extra n = varuintGroups limit n ∨
      (varuintGroups limit n).length < (paddedGroups extra n).length := by
  induction limit generalizing extra n with
  | zero =>
    obtain rfl := Nat.le_zero.mp hle
    exact .inl rfl
  | succ limit ih =>
    rw [varuintGroups]
    cases extra with
    | zero =>
      rw [if_pos (by simpa using hn)]
      exact .inl rfl
    | succ extra =>
      split
      · right
        cases extra <;> simp [paddedGroups]
      · have hrest : n / 128 < 128 ^ (extra + 1) := by
          rw [Nat.pow_succ] at hn
          exact Nat.div_lt_of_lt_mul (by omega)
        rcases ih (Nat.le_of_succ_le_succ hle) hrest with heq | hlt
        · exact .inl (congrArg _ heq)
        · exact .inr (Nat.succ_lt_succ hlt)

theorem Part.Spelled.cases (h : part.Spelled s) :
    s = part.packed ∨ part.packed.length < s.length := by
  cases h with
  | bytes => exact .inl rfl
  | varuint n extra hextra hn => exact paddedGroups_cases hextra hn

/-- **The packed form is the only shortest spelling.** -/
theorem Spelled.cases (h : Spelled parts s) :
    s = parts.flatMap Part.packed ∨ (parts.flatMap Part.packed).length < s.length := by
  induction h with
  | nil => exact .inl rfl
  | cons hpart _ ih =>
    simp only [List.flatMap_cons, List.length_append]
    rcases hpart.cases, ih with ⟨rfl | hpart, rfl | ih⟩
    · exact .inl rfl
    all_goals
      right
      omega

theorem Spelled.length_le (h : Spelled parts s) :
    (parts.flatMap Part.packed).length ≤ s.length := by
  rcases h.cases with rfl | hlt
  · exact Nat.le_refl _
  · exact Nat.le_of_lt hlt

end Spellings

end LightClient

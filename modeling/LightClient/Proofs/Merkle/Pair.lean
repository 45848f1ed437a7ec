import LightClient.Merkle.Pair

/-!
The side of a digest is its top bit alone: marking a side forgets the old one and keeps the rest.
The bytes hashed for a pair give back both digests up to their sides.
-/

namespace LightClient.Digest

variable (d : Digest)

theorem exists_bytes_eq : ∃ b rest, d.bytes = b :: rest := by
  refine List.exists_cons_of_ne_nil fun h => ?_
  have := d.length_bytes
  simp [h] at this

theorem bytes_mapFirst {b : UInt8} {rest : List UInt8} (h : d.bytes = b :: rest)
    (f : UInt8 → UInt8) : (d.mapFirst f).bytes = f b :: rest := by
  simp only [mapFirst, h]

/-- Whatever is done to the first byte, the others stay. -/
theorem tail_mapFirst (f : UInt8 → UInt8) : (d.mapFirst f).bytes.tail = d.bytes.tail := by
  obtain ⟨b, rest, h⟩ := d.exists_bytes_eq
  rw [d.bytes_mapFirst h, h]
  rfl

theorem mapFirst_mapFirst {f g k : UInt8 → UInt8} (h : ∀ b, g (f b) = k b) :
    (d.mapFirst f).mapFirst g = d.mapFirst k := by
  obtain ⟨b, rest, hd⟩ := d.exists_bytes_eq
  rw [Digest.mk.injEq, bytes_mapFirst _ (d.bytes_mapFirst hd f), d.bytes_mapFirst hd, h]

/-- A statement about a byte is checked for every number below 256. -/
theorem forall_byte {p : UInt8 → Prop} (h : ∀ n : Fin 256, p (UInt8.ofNat n)) (b : UInt8) :
    p b := by
  simpa using h ⟨b.toNat, b.toNat_lt⟩

@[simp] theorem asLeft_asLeft : d.asLeft.asLeft = d.asLeft :=
  d.mapFirst_mapFirst (forall_byte (by decide +kernel))

@[simp] theorem asRight_asRight : d.asRight.asRight = d.asRight :=
  d.mapFirst_mapFirst (forall_byte (by decide +kernel))

@[simp] theorem asLeft_asRight : d.asRight.asLeft = d.asLeft :=
  d.mapFirst_mapFirst (forall_byte (by decide +kernel))

@[simp] theorem asRight_asLeft : d.asLeft.asRight = d.asRight :=
  d.mapFirst_mapFirst (forall_byte (by decide +kernel))

@[simp] theorem isLeft_asLeft : d.asLeft.isLeft = true := by
  obtain ⟨b, rest, h⟩ := d.exists_bytes_eq
  rw [isLeft, asLeft, d.bytes_mapFirst h, List.headD_cons, decide_eq_true_eq]
  exact forall_byte (p := fun b => b &&& 0x7f &&& 0x80 = 0) (by decide +kernel) b

@[simp] theorem isLeft_asRight : d.asRight.isLeft = false := by
  obtain ⟨b, rest, h⟩ := d.exists_bytes_eq
  rw [isLeft, asRight, d.bytes_mapFirst h, List.headD_cons, decide_eq_false_iff_not]
  exact forall_byte (p := fun b => ¬ (b ||| 0x80) &&& 0x80 = 0) (by decide +kernel) b

/-- A pair hashes its left digest as it stands on the left. -/
@[simp] theorem pair_asLeft (right : Digest) : d.asLeft.pair right = d.pair right := by
  rw [pair, pair, asLeft_asLeft]

/-- A pair hashes its right digest as it stands on the right. -/
@[simp] theorem pair_asRight (left : Digest) : left.pair d.asRight = left.pair d := by
  rw [pair, pair, asRight_asRight]

/-- The bytes that are hashed for a pair. -/
def joined (left right : Digest) : List UInt8 :=
  left.asLeft.bytes ++ right.asRight.bytes

theorem pair_eq_hash (left right : Digest) : left.pair right = hash (joined left right) := rfl

@[simp] theorem length_joined (left right : Digest) : (joined left right).length = 64 := by
  rw [joined, List.length_append, length_bytes, length_bytes]

@[simp] theorem joined_asRight (left right : Digest) :
    joined left right.asRight = joined left right := by
  rw [joined, joined, asRight_asRight]

/-- The bytes that are hashed do not depend on the sides that the digests had before. -/
theorem joined_congr {l l' r r' : Digest} (hl : l.asLeft = l'.asLeft)
    (hr : r.asLeft = r'.asLeft) : joined l r = joined l' r' := by
  have hright : r.asRight = r'.asRight := by
    rw [← asRight_asLeft, hr, asRight_asLeft]
  rw [joined, joined, hl, hright]

theorem pair_congr {l l' r r' : Digest} (hl : l.asLeft = l'.asLeft) (hr : r.asLeft = r'.asLeft) :
    l.pair r = l'.pair r' := by
  rw [pair_eq_hash, pair_eq_hash, joined_congr hl hr]

theorem joined_inj {l r l' r' : Digest} (h : joined l r = joined l' r') :
    l.asLeft = l'.asLeft ∧ r.asLeft = r'.asLeft := by
  obtain ⟨hl, hr⟩ := List.append_inj h (by rw [length_bytes, length_bytes])
  have hright : r.asRight = r'.asRight := Digest.mk.injEq .. ▸ hr
  refine ⟨Digest.mk.injEq .. ▸ hl, ?_⟩
  rw [← asLeft_asRight, hright, asLeft_asRight]

end LightClient.Digest

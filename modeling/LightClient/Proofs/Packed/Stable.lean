import LightClient.Proofs.Packed.Reads

/-!
Decoders that do not look behind what they read: where one succeeds, it succeeds in the same way
with more bytes behind the input. Sequencing keeps this, and so do lengths that are checked against
the bytes left, for more bytes can only hold more.
-/

namespace LightClient

/-- The same place in an input that goes on. -/
def Cursor.extend (c : Cursor) (more : List UInt8) : Cursor :=
  ⟨c.position, c.rest ++ more⟩

namespace Decoder

variable {α β : Type} {d : Decoder α} {f : α → Decoder β} {field : String}

theorem run_bind_error {e : DecodeError} {c c' : Cursor} (h : d.run c = (.error e, c')) :
    (d >>= f).run c = (.error e, c') := by
  change ExceptT.bindCont f (d.run c).1 (d.run c).2 = _
  rw [h]
  rfl

theorem run_bind_eq_ok {b : β} {c c'' : Cursor} (h : (d >>= f).run c = (.ok b, c'')) :
    ∃ a c', d.run c = (.ok a, c') ∧ (f a).run c' = (.ok b, c'') := by
  cases hd : d.run c with
  | mk result c' =>
    cases result with
    | error e =>
      rw [run_bind_error hd] at h
      cases h
    | ok a =>
      rw [run_bind_ok hd] at h
      exact ⟨a, c', rfl, h⟩

/-- Bytes of a given number are the next ones. -/
theorem run_sized_eq_ok {n : Nat} {bytes : { bytes : List UInt8 // bytes.length = n }}
    {c c' : Cursor} (h : (sized n field).run c = (.ok bytes, c')) :
    c.rest = bytes.1 ++ c'.rest ∧ c'.position = c.position + bytes.1.length := by
  change sized n field c = _ at h
  rw [sized] at h
  split at h
  · next hlen =>
    obtain ⟨hbytes, rfl⟩ := Prod.mk.inj h
    obtain rfl := Except.ok.inj hbytes
    exact ⟨(List.take_append_drop ..).symm, congrArg (c.position + ·) hlen.symm⟩
  · cases h

/-- More bytes behind the input do not change a success. -/
def Stable (d : Decoder α) : Prop :=
  ∀ ⦃c c' : Cursor⦄ ⦃a : α⦄, d.run c = (.ok a, c') →
    ∀ more, d.run (c.extend more) = (.ok a, c'.extend more)

namespace Stable

theorem pure (a : α) : Stable (pure a : Decoder α) := by
  intro c c' b h more
  obtain ⟨hb, rfl⟩ := Prod.mk.inj h
  obtain rfl := Except.ok.inj hb
  rfl

/-- A decoder that never succeeds has no success to change. -/
theorem throw (e : DecodeError) : Stable (throw e : Decoder α) :=
  fun _ _ _ h => nomatch h

theorem bind (hd : Stable d) (hf : ∀ a, Stable (f a)) : Stable (d >>= f) := by
  intro c c'' b h more
  obtain ⟨a, c', ha, hb⟩ := run_bind_eq_ok h
  rw [run_bind_ok (hd ha more)]
  exact hf a hb more

theorem map (hd : Stable d) (g : α → β) : Stable (g <$> d) :=
  hd.bind fun a => .pure (g a)

/-! ## Bytes, numbers and lengths -/

theorem sized (n : Nat) (field : String) : Stable (sized n field) := by
  intro c c' bytes h more
  obtain ⟨hrest, hposition⟩ := run_sized_eq_ok h
  rw [Cursor.extend, hrest, List.append_assoc, reads_sized, Cursor.extend, hposition]

theorem exact (n : Nat) (field : String) : Stable (exact n field) :=
  (sized n field).map Subtype.val

theorem fixed (width : Nat) (field : String) : Stable (fixed width field) :=
  (exact width field).map ofLittleEndian

theorem u8 (field : String) : Stable (u8 field) :=
  (fixed 1 field).map UInt8.ofNat

theorem u16 (field : String) : Stable (u16 field) :=
  (fixed 2 field).map UInt16.ofNat

theorem u32 (field : String) : Stable (u32 field) :=
  (fixed 4 field).map UInt32.ofNat

theorem u64 (field : String) : Stable (u64 field) :=
  (fixed 8 field).map UInt64.ofNat

theorem varuintFrom (field : String) (groups weight value : Nat) :
    Stable (varuintFrom field groups weight value) := by
  induction groups generalizing weight value with
  | zero => exact .throw _
  | succ groups ih =>
    refine (fixed 1 field).bind fun byte => ?_
    simp only
    split
    · split
      · exact .pure _
      · exact .throw _
    · exact ih ..

theorem varuint32 (field : String) : Stable (varuint32 field) :=
  varuintFrom field 5 1 0

/-- A length that the bytes left can hold is held by more bytes too. -/
theorem length (field : String) (minSize : Nat) : Stable (length field minSize) := by
  refine (varuint32 field).bind fun n => ?_
  intro c c' a h more
  rw [run_get_bind] at h ⊢
  split at h
  · cases h
  · next hroom =>
    have hmore : ¬ n.toNat * minSize > (c.extend more).remaining := by
      simp only [Cursor.remaining, Cursor.extend, List.length_append] at hroom ⊢
      omega
    rw [if_neg hmore]
    exact pure _ h more

theorem bytes (field : String) : Stable (bytes field) :=
  (length field 1).bind fun n => exact n field

theorem replicate {item : Decoder α} (h : Stable item) (n : Nat) : Stable (replicate item n) := by
  induction n with
  | zero => exact .pure _
  | succ n ih => exact h.bind fun a => ih.bind fun rest => .pure _

end Stable

end Decoder

end LightClient

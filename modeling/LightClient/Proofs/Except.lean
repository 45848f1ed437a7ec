import Mathlib.Data.List.Forall2

/-!
Results with another error, and results of one step after the other.
-/

namespace LightClient

variable {ε ε' α β : Type} {f : ε → ε'}

@[simp] theorem mapError_ok (a : α) : (Except.ok a : Except ε α).mapError f = .ok a := rfl

theorem mapError_eq_ok {x : Except ε α} {a : α} : x.mapError f = .ok a ↔ x = .ok a := by
  cases x with
  | error e => exact ⟨fun h => (nomatch h), fun h => (nomatch h)⟩
  | ok b => rw [mapError_ok, Except.ok.injEq, Except.ok.injEq]

theorem map_eq_ok {x : Except ε α} {g : α → β} {b : β} :
    x.map g = .ok b ↔ ∃ a, x = .ok a ∧ g a = b := by
  cases x with
  | error e => exact ⟨fun h => (nomatch h), fun ⟨_, h, _⟩ => (nomatch h)⟩
  | ok a => exact ⟨fun h => ⟨a, rfl, Except.ok.inj h⟩, fun ⟨_, ha, h⟩ => Except.ok.inj ha ▸ h ▸ rfl⟩

theorem bind_eq_ok {x : Except ε α} {g : α → Except ε β} {b : β} :
    (x >>= g) = .ok b ↔ ∃ a, x = .ok a ∧ g a = .ok b := by
  cases x with
  | error e => exact ⟨fun h => (nomatch h), fun ⟨_, h, _⟩ => (nomatch h)⟩
  | ok a => exact ⟨fun h => ⟨a, rfl, h⟩, fun ⟨_, ha, h⟩ => Except.ok.inj ha ▸ h⟩

theorem bind_eq_error {x : Except ε α} {g : α → Except ε β} {e : ε} :
    (x >>= g) = .error e ↔ x = .error e ∨ ∃ a, x = .ok a ∧ g a = .error e := by
  cases x with
  | error e' =>
    constructor
    · exact fun h => .inl (congrArg _ (Except.error.inj h))
    · rintro (h | ⟨_, h, _⟩)
      · exact congrArg _ (Except.error.inj h)
      · exact nomatch h
  | ok a =>
    constructor
    · exact fun h => .inr ⟨a, rfl, h⟩
    · rintro (h | ⟨_, ha, h⟩)
      · exact nomatch h
      · exact Except.ok.inj ha ▸ h

/-- A list is read if every item is, and in no other way. -/
theorem mapM_eq_ok_iff {read : α → Except ε β} {l : List α} {bs : List β} :
    l.mapM read = .ok bs ↔ List.Forall₂ (fun a b => read a = .ok b) l bs := by
  induction l generalizing bs with
  | nil =>
    rw [List.forall₂_nil_left_iff]
    exact ⟨fun h => (Except.ok.inj h).symm, fun h => h ▸ rfl⟩
  | cons a l ih =>
    rw [List.mapM_cons, bind_eq_ok, List.forall₂_cons_left_iff]
    simp only [bind_eq_ok, ih]
    constructor
    · rintro ⟨b, hb, bs', hbs, h⟩
      exact ⟨b, bs', hb, hbs, (Except.ok.inj h).symm⟩
    · rintro ⟨b, bs', hb, hbs, rfl⟩
      exact ⟨b, hb, bs', hbs, rfl⟩

/-- A list is not read for what is wrong with the first item that is not. -/
theorem mapM_eq_error_iff {read : α → Except ε β} {l : List α} {e : ε} :
    l.mapM read = .error e ↔ ∃ pre a post,
      l = pre ++ a :: post ∧ (∀ x ∈ pre, ∃ b, read x = .ok b) ∧ read a = .error e := by
  induction l with
  | nil =>
    constructor
    · exact fun h => nomatch h
    · rintro ⟨pre, a, post, h, -⟩
      exact absurd h (by simp)
  | cons a l ih =>
    have hcons : (a :: l).mapM read = .error e ↔
        read a = .error e ∨ ∃ b, read a = .ok b ∧ l.mapM read = .error e := by
      rw [List.mapM_cons, bind_eq_error]
      simp only [bind_eq_error, pure, Except.pure, reduceCtorEq, and_false, exists_false, or_false]
    rw [hcons, ih]
    constructor
    · rintro (h | ⟨b, hb, pre, a', post, rfl, hpre, h⟩)
      · exact ⟨[], a, l, rfl, List.forall_mem_nil _, h⟩
      · exact ⟨a :: pre, a', post, rfl, List.forall_mem_cons.mpr ⟨⟨b, hb⟩, hpre⟩, h⟩
    · rintro ⟨pre, a', post, heq, hpre, h⟩
      -- The first item is the one that is not read, or one of those before it.
      cases pre with
      | nil =>
        obtain ⟨rfl, rfl⟩ := List.cons.inj heq
        exact .inl h
      | cons x pre =>
        obtain ⟨rfl, rfl⟩ := List.cons.inj heq
        obtain ⟨⟨b, hb⟩, hpre⟩ := List.forall_mem_cons.mp hpre
        exact .inr ⟨b, hb, pre, a', post, rfl, hpre, h⟩

/-- A list is read item by item where each item is read. -/
theorem mapM_eq_ok {read : α → Except ε β} {g : α → β} {l : List α}
    (h : ∀ a ∈ l, read a = .ok (g a)) : l.mapM read = .ok (l.map g) := by
  rw [mapM_eq_ok_iff, List.forall₂_map_right_iff, List.forall₂_same]
  exact h

end LightClient

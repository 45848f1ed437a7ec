import LightClient.Relay.Table
import Mathlib.Order.Defs.Unbundled

/-!
Tables by entries. Inserting changes what is found under one key only and keeps the keys in
ascending order. An entry whose key is above all others is inserted at the end, and where no key
stands twice every entry is found under its key.
-/

namespace LightClient.Table

variable {κ ν : Type} {key : κ} {value : ν} {entries : List (κ × ν)}

section Find

variable [DecidableEq κ]

theorem findIn_eq_some (hn : (entries.map (·.1)).Nodup) (h : (key, value) ∈ entries) :
    findIn key entries = some value := by
  induction entries with
  | nil => exact absurd h List.not_mem_nil
  | cons e entries ih =>
    rw [List.map_cons, List.nodup_cons] at hn
    rw [findIn]
    rcases List.mem_cons.mp h with rfl | h
    · exact if_pos rfl
    · rw [if_neg, ih hn.2 h]
      rintro rfl
      exact hn.1 (List.mem_map.mpr ⟨_, h, rfl⟩)

/-- What is found under a key stands in an entry of that key. -/
theorem mem_of_findIn (h : findIn key entries = some value) : (key, value) ∈ entries := by
  induction entries with
  | nil => exact nomatch h
  | cons e entries ih =>
    rw [findIn] at h
    split at h
    · next heq =>
      obtain rfl := Option.some.inj h
      exact heq ▸ List.mem_cons_self
    · exact List.mem_cons_of_mem _ (ih h)

theorem mem_keys_iff {t : Table κ ν} : key ∈ t.keys ↔ ∃ value, t.find? key = some value := by
  obtain ⟨entries⟩ := t
  change key ∈ entries.map (·.1) ↔ ∃ value, findIn key entries = some value
  induction entries with
  | nil => exact ⟨fun h => absurd h List.not_mem_nil, fun ⟨_, h⟩ => nomatch h⟩
  | cons e entries ih =>
    rw [List.map_cons, List.mem_cons, findIn]
    split
    · next heq => exact ⟨fun _ => ⟨_, rfl⟩, fun _ => .inl heq.symm⟩
    · next hne => rw [or_iff_right (Ne.symm hne), ih]

variable [LT κ] [DecidableLT κ]

theorem findIn_insertIn (key : κ) (value : ν) (entries : List (κ × ν)) :
    findIn key (insertIn key value entries) = some value := by
  induction entries with
  | nil => simp [insertIn, findIn]
  | cons e entries ih =>
    rw [insertIn]
    split
    · simp [findIn]
    · split
      · simp [findIn]
      · next hne _ => rw [findIn, if_neg hne, ih]

@[simp] theorem find?_insert (t : Table κ ν) (key : κ) (value : ν) :
    (t.insert key value).find? key = some value :=
  findIn_insertIn key value t.entries

theorem findIn_insertIn_ne {key' : κ} (h : key' ≠ key) :
    findIn key' (insertIn key value entries) = findIn key' entries := by
  induction entries with
  | nil => exact if_neg (Ne.symm h)
  | cons e entries ih =>
    rw [insertIn]
    split
    · next heq => rw [findIn, findIn, heq, if_neg (Ne.symm h), if_neg (Ne.symm h)]
    · split
      · rw [findIn, if_neg (Ne.symm h)]
      · rw [findIn, findIn, ih]

/-- What is found under other keys stays. -/
theorem find?_insert_ne (t : Table κ ν) {key' : κ} (h : key' ≠ key) (value : ν) :
    (t.insert key value).find? key' = t.find? key' :=
  findIn_insertIn_ne h

theorem mem_insertIn {e : κ × ν} (h : e ∈ insertIn key value entries) :
    e = (key, value) ∨ e ∈ entries := by
  induction entries with
  | nil => exact .inl (List.mem_singleton.mp h)
  | cons e' entries ih =>
    rw [insertIn] at h
    split at h
    · exact (List.mem_cons.mp h).imp_right (List.mem_cons_of_mem _)
    · split at h
      · exact List.mem_cons.mp h
      · rcases List.mem_cons.mp h with rfl | h
        · exact .inr List.mem_cons_self
        · exact (ih h).imp_right (List.mem_cons_of_mem _)

theorem mem_keys_insertIn {key' : κ} : key' ∈ (insertIn key value entries).map (·.1) ↔
    key' = key ∨ key' ∈ entries.map (·.1) := by
  induction entries with
  | nil => simp [insertIn]
  | cons e entries ih =>
    rw [insertIn]
    split
    · next heq => simp [heq]
    · split
      · simp
      · rw [List.map_cons, List.map_cons, List.mem_cons, List.mem_cons, ih]
        exact or_left_comm

theorem mem_keys_insert {t : Table κ ν} {key' : κ} :
    key' ∈ (t.insert key value).keys ↔ key' = key ∨ key' ∈ t.keys :=
  mem_keys_insertIn

/-- Inserting keeps the keys in ascending order. -/
theorem pairwise_keys_insert [IsTrans κ (· < ·)] [Std.Trichotomous (α := κ) (· < ·)]
    {t : Table κ ν} (h : t.keys.Pairwise (· < ·)) (key : κ) (value : ν) :
    (t.insert key value).keys.Pairwise (· < ·) := by
  obtain ⟨entries⟩ := t
  change ((insertIn key value entries).map (·.1)).Pairwise (· < ·)
  induction entries with
  | nil => exact List.pairwise_singleton ..
  | cons e entries ih =>
    obtain ⟨k, v⟩ := e
    have hcons : (k :: entries.map (·.1)).Pairwise (· < ·) := h
    rw [List.pairwise_cons] at hcons
    rw [insertIn]
    split
    · next heq => exact heq ▸ h
    next hne =>
    split
    · next hlt =>
      refine List.pairwise_cons.mpr ⟨fun k' hk' => ?_, h⟩
      rcases List.mem_cons.mp hk' with rfl | hk'
      · exact hlt
      · exact IsTrans.trans _ _ _ hlt (hcons.1 k' hk')
    · next hlt =>
      refine List.pairwise_cons.mpr ⟨fun k' hk' => ?_, ih hcons.2⟩
      rcases mem_keys_insertIn.mp hk' with rfl | hk'
      · exact Decidable.byContradiction fun hgt =>
          hne (Std.Trichotomous.trichotomous k k' hgt hlt)
      · exact hcons.1 k' hk'

theorem insertIn_eq_concat (h : ∀ e ∈ entries, e.1 ≠ key ∧ ¬ key < e.1) :
    insertIn key value entries = entries ++ [(key, value)] := by
  induction entries with
  | nil => rfl
  | cons e entries ih =>
    obtain ⟨hne, hlt⟩ := h e List.mem_cons_self
    rw [insertIn, if_neg hne, if_neg hlt, ih fun e he => h e (List.mem_cons_of_mem _ he)]
    rfl

end Find

/-- A range whose low bound is under all keys takes the entries up to its high bound. -/
theorem range_eq_map [LT κ] [DecidableLT κ] {t : Table κ ν} {low high : κ}
    {within behind : List (κ × ν)} (h : t.entries = within ++ behind)
    (hw : ∀ e ∈ within, ¬ e.1 < low ∧ ¬ high < e.1) (hb : ∀ e ∈ behind, high < e.1) :
    t.range low high = within.map (·.2) := by
  have hwithin : within.filter (fun e => !(e.1 < low) && !(high < e.1)) = within :=
    List.filter_eq_self.mpr fun e he => by simp [hw e he]
  have hbehind : behind.filter (fun e => !(e.1 < low) && !(high < e.1)) = [] :=
    List.filter_eq_nil_iff.mpr fun e he => by simp [hb e he]
  rw [range, h, List.filter_append, hwithin, hbehind, List.append_nil]

/-! ## Tables of other values -/

/-- The table with these values under the same keys. -/
def mapValues {ν' : Type} (f : ν → ν') (t : Table κ ν) : Table κ ν' :=
  ⟨t.entries.map fun e => (e.1, f e.2)⟩

section MapValues

variable {ν' : Type} (f : ν → ν') (t : Table κ ν)

theorem find?_mapValues [DecidableEq κ] (key : κ) :
    (t.mapValues f).find? key = (t.find? key).map f := by
  obtain ⟨entries⟩ := t
  change findIn key (entries.map _) = (findIn key entries).map f
  induction entries with
  | nil => rfl
  | cons e entries ih =>
    rw [List.map_cons, findIn, findIn]
    split
    · rfl
    · exact ih

variable [LT κ] [DecidableLT κ]

theorem mapValues_insert [DecidableEq κ] (key : κ) (value : ν) :
    (t.insert key value).mapValues f = (t.mapValues f).insert key (f value) := by
  obtain ⟨entries⟩ := t
  refine congrArg Table.mk ?_
  change (insertIn key value entries).map _ = insertIn key (f value) (entries.map _)
  induction entries with
  | nil => rfl
  | cons e entries ih =>
    rw [List.map_cons, insertIn, insertIn]
    split
    · rfl
    · split
      · rfl
      · rw [List.map_cons, ih]

theorem range_mapValues (low high : κ) :
    (t.mapValues f).range low high = (t.range low high).map f := by
  rw [range, range, mapValues, List.filter_map, List.map_map, List.map_map]
  rfl

end MapValues

end LightClient.Table

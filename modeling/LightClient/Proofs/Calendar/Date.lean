import LightClient.Calendar.Date

/-!
Dates and day counts. Main statements: the date of a day count exists in the calendar, and its day
count is the one it was made from.
-/

namespace LightClient.Date

/-! ## Years -/

theorem daysBeforeYear_succ (year : Int) :
    daysBeforeYear (year + 1) = daysBeforeYear year + daysBeforeMonth year 13 := by
  have hlength : (daysBeforeMonth year 13 : Int) = 365 + if isLeap year then 1 else 0 := by
    simp only [daysBeforeMonth, monthLength]
    cases isLeap year with
    | false => rfl
    | true => rfl
  rw [hlength, daysBeforeYear, daysBeforeYear]
  by_cases hleap : isLeap year
  · rw [if_pos hleap]
    simp only [isLeap, Bool.and_eq_true, Bool.or_eq_true, decide_eq_true_eq] at hleap
    omega
  · rw [if_neg hleap]
    simp only [isLeap, Bool.and_eq_true, Bool.or_eq_true, decide_eq_true_eq] at hleap
    omega

/-- A guess from the average length of years is wrong by a year at most. -/
theorem guess_spec {days guess : Int} (h : guess = days * 400 / 146097 + 1) :
    daysBeforeYear (guess - 1) ≤ days ∧ days < daysBeforeYear (guess + 1 + 1) := by
  rw [daysBeforeYear, daysBeforeYear]
  omega

/-- A day lies in its year. -/
theorem yearOf_spec (days : Int) :
    daysBeforeYear (yearOf days) ≤ days ∧ days < daysBeforeYear (yearOf days + 1) := by
  obtain ⟨hlow, hhigh⟩ := guess_spec (rfl : _ = days * 400 / 146097 + 1)
  rw [yearOf]
  by_cases hbefore : days < daysBeforeYear (days * 400 / 146097 + 1)
  · rw [if_pos hbefore, Int.sub_add_cancel]
    exact ⟨hlow, hbefore⟩
  · rw [if_neg hbefore]
    by_cases hbehind : daysBeforeYear (days * 400 / 146097 + 1 + 1) ≤ days
    · rw [if_pos hbehind]
      exact ⟨hbehind, hhigh⟩
    · rw [if_neg hbehind]
      exact ⟨Int.not_lt.mp hbefore, Int.not_le.mp hbehind⟩

/-- Days from the first year to year 9999 have a year of at most four digits. -/
theorem yearOf_four_digits {days : Int} (h0 : 0 ≤ days) (h : days < daysBeforeYear 10000) :
    0 ≤ yearOf days ∧ yearOf days ≤ 9999 := by
  obtain ⟨hle, hlt⟩ := yearOf_spec days
  simp only [daysBeforeYear] at *
  omega

/-! ## Months -/

theorem monthLength_le (year : Int) (month : Nat) : monthLength year month ≤ 31 := by
  rw [monthLength]
  split
  · split <;> decide
  · split <;> decide

theorem daysBeforeMonth_succ (year : Int) {month : Nat} (h : 1 ≤ month) :
    daysBeforeMonth year (month + 1) = daysBeforeMonth year month + monthLength year month := by
  cases month with
  | zero => exact absurd h (Nat.not_succ_le_zero 0)
  | succ month => rfl

/-- The month and day found for a day of the year are those of the calendar. -/
theorem monthOf_spec (year : Int) (more month days : Nat) (h1 : 1 ≤ month)
    (h12 : month + more = 12)
    (hdays : daysBeforeMonth year month + days < daysBeforeMonth year 13) :
    let found := monthOf year more month days
    1 ≤ found.1 ∧ found.1 ≤ 12 ∧ 1 ≤ found.2 ∧ found.2 ≤ monthLength year found.1 ∧
      daysBeforeMonth year found.1 + found.2 = daysBeforeMonth year month + days + 1 := by
  induction more generalizing month days with
  | zero =>
    obtain rfl : month = 12 := h12
    rw [daysBeforeMonth_succ year h1] at hdays
    simp only [monthOf]
    omega
  | succ more ih =>
    have hnext := daysBeforeMonth_succ year h1
    rw [monthOf]
    simp only
    by_cases hlt : days < monthLength year month
    · rw [if_pos hlt]
      simp only
      omega
    · rw [if_neg hlt]
      have hrest := ih (month + 1) (days - monthLength year month) (by omega)
        (by omega) (by omega)
      simp only at hrest
      omega

/-! ## Dates -/

/-- The date of a day count exists, and is that many days away. -/
theorem ofDays_spec (days : Int) : (ofDays days).valid = true ∧ (ofDays days).toDays = days := by
  obtain ⟨hle, hlt⟩ := yearOf_spec (days + epoch)
  rw [daysBeforeYear_succ] at hlt
  have hfirst : daysBeforeMonth (yearOf (days + epoch)) 1 = 0 := rfl
  have hspec := monthOf_spec (yearOf (days + epoch)) 11 1
    (days + epoch - daysBeforeYear (yearOf (days + epoch))).toNat (Nat.le_refl 1) rfl (by omega)
  simp only at hspec
  rw [ofDays]
  simp only [valid, toDays, Bool.and_eq_true, decide_eq_true_eq]
  omega

theorem year_ofDays (days : Int) : (ofDays days).year = yearOf (days + epoch) := rfl

end LightClient.Date

import LightClient.Proofs.Calendar.Date
import Mathlib.Logic.Function.Iterate

/-!
The order of dates, and the date that follows one. Main statement: one date comes so many days
behind another just if their day counts are that far apart.
-/

namespace LightClient.Date

variable {d d' : Date}

/-! ## Within a year -/

theorem valid_iff : d.valid = true ↔
    1 ≤ d.month ∧ d.month ≤ 12 ∧ 1 ≤ d.day ∧ d.day ≤ monthLength d.year d.month := by
  simp only [valid, Bool.and_eq_true, decide_eq_true_eq, and_assoc]

theorem daysBeforeMonth_mono (year : Int) {month month' : Nat} (h1 : 1 ≤ month)
    (h : month ≤ month') : daysBeforeMonth year month ≤ daysBeforeMonth year month' := by
  induction h with
  | refl => exact Nat.le_refl _
  | step hle ih =>
    rw [daysBeforeMonth_succ year (Nat.le_trans h1 hle)]
    exact Nat.le_add_right_of_le ih

/-- The days from the start of the year to the start of the date. -/
def dayOfYear (d : Date) : Nat :=
  daysBeforeMonth d.year d.month + (d.day - 1)

theorem toDays_eq (h : d.valid = true) :
    d.toDays = daysBeforeYear d.year + d.dayOfYear - epoch := by
  have hday := (valid_iff.mp h).2.2.1
  rw [toDays, dayOfYear]
  omega

/-- A date lies within its month. -/
theorem dayOfYear_spec (h : d.valid = true) :
    daysBeforeMonth d.year d.month ≤ d.dayOfYear ∧
      d.dayOfYear < daysBeforeMonth d.year (d.month + 1) := by
  obtain ⟨hmonth, -, hday, hlength⟩ := valid_iff.mp h
  rw [dayOfYear, daysBeforeMonth_succ _ hmonth]
  omega

theorem dayOfYear_lt (h : d.valid = true) : d.dayOfYear < daysBeforeMonth d.year 13 := by
  obtain ⟨hmonth, hmonth12, -⟩ := valid_iff.mp h
  exact Nat.lt_of_lt_of_le (dayOfYear_spec h).2
    (daysBeforeMonth_mono d.year (Nat.succ_pos _) (Nat.succ_le_succ hmonth12))

/-! ## Order -/

theorem daysBeforeYear_mono {year year' : Int} (h : year ≤ year') :
    daysBeforeYear year ≤ daysBeforeYear year' := by
  rw [daysBeforeYear, daysBeforeYear]
  omega

/-- One date comes before another: the year decides, then the month, then the day. -/
def Before (d d' : Date) : Prop :=
  d.year < d'.year ∨ d.year = d'.year ∧ (d.month < d'.month ∨ d.month = d'.month ∧ d.day < d'.day)

theorem Before.toDays_lt (h : d.valid = true) (h' : d'.valid = true) (hlt : Before d d') :
    d.toDays < d'.toDays := by
  rw [toDays_eq h, toDays_eq h']
  rcases hlt with hyear | ⟨hyear, hmonth | ⟨hmonth, hday⟩⟩
  · -- the rest of the earlier year lies between them
    have hnext : daysBeforeYear (d.year + 1) ≤ daysBeforeYear d'.year := daysBeforeYear_mono hyear
    have hrest := dayOfYear_lt h
    rw [daysBeforeYear_succ] at hnext
    omega
  · -- the rest of the earlier month lies between them
    have hnext : daysBeforeMonth d.year (d.month + 1) ≤ daysBeforeMonth d.year d'.month :=
      daysBeforeMonth_mono d.year (Nat.succ_pos _) hmonth
    have hend := (dayOfYear_spec h).2
    have hstart := (dayOfYear_spec h').1
    rw [← hyear] at hstart ⊢
    omega
  · have hpos := (valid_iff.mp h).2.2.1
    rw [dayOfYear, dayOfYear, hyear, hmonth]
    omega

theorem before_trichotomy (d d' : Date) : Before d d' ∨ d = d' ∨ Before d' d := by
  obtain ⟨year, month, day⟩ := d
  obtain ⟨year', month', day'⟩ := d'
  simp only [Before, mk.injEq]
  omega

/-- Dates stand in the order of their day counts. -/
theorem toDays_lt_iff (h : d.valid = true) (h' : d'.valid = true) :
    d.toDays < d'.toDays ↔ Before d d' := by
  refine ⟨fun hlt => ?_, Before.toDays_lt h h'⟩
  rcases before_trichotomy d d' with hbefore | rfl | hbehind
  · exact hbefore
  · omega
  · have := hbehind.toDays_lt h' h
    omega

theorem toDays_inj (h : d.valid = true) (h' : d'.valid = true) :
    d.toDays = d'.toDays ↔ d = d' := by
  refine ⟨fun heq => ?_, congrArg _⟩
  rcases before_trichotomy d d' with hbefore | heq' | hbehind
  · have := hbefore.toDays_lt h h'
    omega
  · exact heq'
  · have := hbehind.toDays_lt h' h
    omega

/-! ## The next date -/

/-- The date of the next day. -/
def next (d : Date) : Date :=
  if d.day < monthLength d.year d.month then ⟨d.year, d.month, d.day + 1⟩
  else if d.month < 12 then ⟨d.year, d.month + 1, 1⟩
  else ⟨d.year + 1, 1, 1⟩

theorem one_le_monthLength (year : Int) (month : Nat) : 1 ≤ monthLength year month := by
  rw [monthLength]
  split
  · split <;> decide
  · split <;> decide

theorem next_spec (h : d.valid = true) :
    d.next.valid = true ∧ d.next.toDays = d.toDays + 1 := by
  obtain ⟨hmonth, hmonth12, hday, hlength⟩ := valid_iff.mp h
  have hstep := daysBeforeMonth_succ d.year hmonth
  rw [valid_iff, next]
  by_cases hmore : d.day < monthLength d.year d.month
  · rw [if_pos hmore]
    simp only [toDays]
    omega
  · rw [if_neg hmore]
    by_cases hdecember : d.month < 12
    · rw [if_pos hdecember]
      have := one_le_monthLength d.year (d.month + 1)
      simp only [toDays]
      omega
    · -- the year is over, and `daysBeforeYear` counts twelve whole months for it
      rw [if_neg hdecember]
      have hlast : d.month = 12 := by omega
      have hyear := daysBeforeYear_succ d.year
      have hfirst : daysBeforeMonth (d.year + 1) 1 = 0 := rfl
      have := one_le_monthLength (d.year + 1) 1
      simp only [hlast, Nat.reduceAdd] at hstep hlength hmore
      simp only [toDays, hlast]
      omega

theorem iterate_next_spec (h : d.valid = true) (n : Nat) :
    (next^[n] d).valid = true ∧ (next^[n] d).toDays = d.toDays + n := by
  induction n with
  | zero => exact ⟨h, (Int.add_zero _).symm⟩
  | succ n ih =>
    obtain ⟨hvalid, hdays⟩ := ih
    rw [Function.iterate_succ_apply']
    refine ⟨(next_spec hvalid).1, ?_⟩
    rw [(next_spec hvalid).2, hdays]
    omega

/-- **Days between dates**: a date is the one that comes so many days behind another just if the
day counts are that far apart. -/
theorem iterate_next_iff (h : d.valid = true) (h' : d'.valid = true) (n : Nat) :
    next^[n] d = d' ↔ d'.toDays - d.toDays = n := by
  obtain ⟨hvalid, hdays⟩ := iterate_next_spec h n
  constructor
  · rintro rfl
    omega
  · intro hapart
    exact (toDays_inj hvalid h').mp (by omega)

end LightClient.Date

import LightClient.Block.Slot
import LightClient.Proofs.Calendar.Scan
import LightClient.Proofs.Except

/-!
Slots and their text. Main statement: a slot is read back from its text.
-/

namespace LightClient

theorem Moment.millis_ofMillis (n : Int) : (ofMillis n).millis = n := by
  simp only [ofMillis, millis, Nat.mul_div_cancel _ (show 0 < 1000000 by decide)]
  omega

namespace Slot

/-- A slot starts within a year of four digits, and at a whole millisecond. -/
theorem moment_spec (s : Slot) : 0 ≤ s.moment.date.year ∧ s.moment.date.year ≤ 9999 ∧
    s.moment.nanos < 1000000000 ∧ s.moment.nanos / 1000000 * 1000000 = s.moment.nanos := by
  have hindex := s.index.toNat_lt
  have hyear : 0 ≤ s.moment.second / 86400 + Date.epoch ∧
      s.moment.second / 86400 + Date.epoch < Date.daysBeforeYear 10000 := by
    simp only [moment, Moment.ofMillis, millis, epoch, interval, Date.epoch, Date.daysBeforeYear]
    omega
  obtain ⟨h0, h9999⟩ := Date.yearOf_four_digits hyear.1 hyear.2
  rw [Moment.date, Date.year_ofDays]
  refine ⟨h0, h9999, ?_⟩
  simp only [moment, Moment.ofMillis]
  omega

/-- A slot is the one that its start lies in. -/
theorem ofMoment_moment (s : Slot) : ofMoment s.moment = .ok s := by
  have hindex := s.index.toNat_lt
  have hindex' : (s.index.toNat : Int) < UInt32.size := by exact_mod_cast hindex
  have hoffset : s.millis - epoch = s.index.toNat * interval := by
    rw [millis]
    omega
  have hplace : s.index.toNat * interval / interval = s.index.toNat :=
    Int.mul_ediv_cancel _ (by decide)
  have h0 : ¬ s.index.toNat * interval < 0 := by
    rw [interval]
    omega
  rw [ofMoment, moment, Moment.millis_ofMillis]
  simp only [hoffset, hplace, if_neg h0, if_pos hindex', Int.toNat_natCast, UInt32.ofNat_toNat]

theorem ofText_text (s : Slot) : ofText s.text = .ok s := by
  obtain ⟨h0, h9999, hnanos, hwhole⟩ := s.moment_spec
  rw [ofText, text, Moment.ofText_isoText h0 h9999 hnanos, hwhole]
  exact s.ofMoment_moment

end Slot

end LightClient

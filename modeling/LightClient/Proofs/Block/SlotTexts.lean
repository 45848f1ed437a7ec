import LightClient.Proofs.Block.Slot
import LightClient.Proofs.Calendar.Stamp
import Mathlib.Algebra.Ring.Int.Defs

/-!
Slots and the calendar. Main statement: a date and a time of day are read as the slot that so many
half seconds since the start of the year 2000 lead to, and the texts of slots stand in their order.
-/

namespace LightClient

/-! ## The slot of a stamp -/

/-- The milliseconds since the start of the year 2000; negative for earlier times. -/
def Stamp.elapsed (st : Stamp) : Int :=
  (st.date.toDays - (Date.mk 2000 1 1).toDays) * 86400000 + st.clock

namespace Slot

variable {st : Stamp} {text : String}

theorem moment_sub_epoch (st : Stamp) : st.moment.millis - epoch = st.elapsed := by
  have hfirst : (Date.mk 2000 1 1).toDays = 10957 := by decide
  rw [st.millis_moment, epoch, Stamp.elapsed, hfirst]
  omega

theorem ofText_of_written (h : st.Written text) : ofText text = ofMoment st.moment := by
  rw [ofText, Stamp.written_iff.mp h, st.ofText_text]

theorem ofMoment_of_neg (h : st.elapsed < 0) :
    ofMoment st.moment = .error (.beforeFirst st.moment) := by
  rw [ofMoment]
  simp only [moment_sub_epoch, if_pos h]

theorem ofMoment_of_lt (h0 : 0 ≤ st.elapsed) (h : st.elapsed < 500 * 2 ^ 32) :
    ∃ s, ofMoment st.moment = .ok s ∧ (s.index.toNat : Int) = st.elapsed / 500 := by
  have hplace : st.elapsed / interval < UInt32.size := by
    simp only [interval, UInt32.size]
    omega
  rw [ofMoment]
  simp only [moment_sub_epoch, if_neg (Int.not_lt.mpr h0), if_pos hplace]
  refine ⟨_, rfl, ?_⟩
  simp only [interval, UInt32.size] at *
  rw [UInt32.toNat_ofNat_of_lt' (by rw [UInt32.size]; omega)]
  omega

theorem ofMoment_of_ge (h : 500 * 2 ^ 32 ≤ st.elapsed) :
    ofMoment st.moment = .error (.afterLast st.moment) := by
  have h0 : ¬ st.elapsed < 0 := by omega
  have hplace : ¬ st.elapsed / interval < UInt32.size := by
    simp only [interval, UInt32.size]
    omega
  rw [ofMoment]
  simp only [moment_sub_epoch, if_neg h0, if_neg hplace]

/-! ## Order -/

theorem millis_lt_iff {s s' : Slot} : s.millis < s'.millis ↔ s.index < s'.index := by
  rw [millis, millis, interval, UInt32.lt_iff_toNat_lt]
  omega

theorem text_lt_iff {s s' : Slot} : utf8 s.text < utf8 s'.text ↔ s.index < s'.index := by
  obtain ⟨h0, h9999, hnanos, -⟩ := s.moment_spec
  obtain ⟨h0', h9999', hnanos', -⟩ := s'.moment_spec
  rw [text, text, Moment.isoText_lt_iff h0 h9999 hnanos h0' h9999' hnanos', moment, moment,
    Moment.millis_ofMillis, Moment.millis_ofMillis, millis_lt_iff]

/-- **Slots and the calendar**: a slot is found again from its start and from its text, texts of
slots stand in the order of the slots, and the text of an existing date and time of day is read as
the slot of its milliseconds since the start of the year 2000, and refused outside all slots. The
days counted are those that the calendar has from one date to another. -/
theorem texts_agree_with_calendar :
    (∀ s : Slot, ofMoment s.moment = .ok s ∧ ofText s.text = .ok s) ∧
    (∀ s s' : Slot, utf8 s.text < utf8 s'.text ↔ s.index < s'.index) ∧
    (∀ (st : Stamp) (text : String), st.Written text →
      (st.elapsed < 0 → ofText text = .error (.beforeFirst st.moment)) ∧
      (0 ≤ st.elapsed → st.elapsed < 500 * 2 ^ 32 →
        ∃ s, ofText text = .ok s ∧ (s.index.toNat : Int) = st.elapsed / 500) ∧
      (500 * 2 ^ 32 ≤ st.elapsed → ofText text = .error (.afterLast st.moment))) ∧
    (∀ d d' : Date, d.valid = true → d'.valid = true →
      ∀ n : Nat, Date.next^[n] d = d' ↔ d'.toDays - d.toDays = n) := by
  refine ⟨fun s => ⟨s.ofMoment_moment, s.ofText_text⟩, fun _ _ => text_lt_iff, ?_,
    fun _ _ => Date.iterate_next_iff⟩
  intro st text hwritten
  rw [ofText_of_written hwritten]
  exact ⟨ofMoment_of_neg, ofMoment_of_lt, ofMoment_of_ge⟩

/-- A leap second at the end of 1999 lies in slot 0, and the first of March 2000 comes two days
after the 28th of February. -/
theorem texts_agree_with_calendar_leap : ∃ st : Stamp,
    st.Written "1999-12-31T23:59:60.250" ∧ 0 ≤ st.elapsed ∧ st.elapsed < 500 * 2 ^ 32 ∧
    ofText "1999-12-31T23:59:60.250" = .ok ⟨0⟩ ∧ (Date.mk 2000 2 28).valid = true ∧
    (Date.mk 2000 3 1).valid = true ∧ Date.next^[2] ⟨2000, 2, 28⟩ = ⟨2000, 3, 1⟩ := by
  obtain ⟨-, -, hread, hdays⟩ := texts_agree_with_calendar
  let st : Stamp := ⟨1999, 12, 31, 23, 59, 60, some 250, by decide, by decide, by decide,
    by decide, by decide, by decide⟩
  have hwritten : st.Written "1999-12-31T23:59:60.250" := Stamp.written_iff.mpr (by decide)
  have helapsed : st.elapsed = 250 := by decide
  have h0 : 0 ≤ st.elapsed := by rw [helapsed]; decide
  have hlt : st.elapsed < 500 * 2 ^ 32 := by rw [helapsed]; decide
  obtain ⟨s, hok, hindex⟩ := (hread st _ hwritten).2.1 h0 hlt
  rw [helapsed] at hindex
  obtain ⟨index⟩ := s
  obtain rfl : index = 0 := UInt32.toNat_inj.mp (Int.ofNat.inj hindex)
  exact ⟨st, hwritten, h0, hlt, hok, by decide, by decide,
    (hdays _ _ (by decide) (by decide) 2).mpr (by decide)⟩

end Slot

end LightClient

import LightClient.Proofs.Calendar.Days
import LightClient.Proofs.Calendar.Scan
import LightClient.Proofs.Text.Order
import Mathlib.Data.List.Induction

/-!
Written dates and times of day. Main statements: a text of that form is read as the moment it
names, and the texts of moments in years of four digits stand in the order of the moments.
-/

namespace LightClient.Moment

/-! ## Digits -/

section Digits

variable {width m n : Nat}

theorem digits_succ (hwidth : 0 < width) (n : Nat) :
    digits (width + 1) n = digits width (n / 10) ++ [(n % 10).digitChar] := by
  by_cases hn : 10 ≤ n
  · rw [digits, digits, Nat.toDigits_of_base_le (by decide) hn, List.length_append,
      List.length_singleton, Nat.add_sub_add_right, List.append_assoc]
  · -- a single digit, where the digits of the rest are a zero of their own
    rw [Nat.not_le] at hn
    obtain ⟨width, rfl⟩ := Nat.exists_eq_succ_of_ne_zero (Nat.ne_of_gt hwidth)
    rw [digits, digits, Nat.toDigits_of_lt_base hn, Nat.div_eq_of_lt hn, Nat.mod_eq_of_lt hn]
    change List.replicate (width + 1) '0' ++ _ = (List.replicate width '0' ++ ['0']) ++ _
    rw [List.replicate_succ']

/-- The digits are those of the decimal places. -/
theorem digits_eq_places (hwidth : 0 < width) (h : n < 10 ^ width) :
    digits width n = (places 10 width n).map Nat.digitChar := by
  induction width, hwidth using Nat.le_induction generalizing n with
  | base =>
    rw [Nat.pow_one] at h
    rw [digits, Nat.toDigits_of_lt_base h]
    simp [places, Nat.mod_eq_of_lt h]
  | succ width hwidth ih =>
    have hrest : n / 10 < 10 ^ width :=
      Nat.div_lt_of_lt_mul (by rwa [Nat.mul_comm, ← Nat.pow_succ])
    rw [digits_succ hwidth, ih hrest, places, List.map_append, List.map_singleton]

theorem digitChar_lt_iff : ∀ a < 10, ∀ b < 10,
    (a.digitChar < b.digitChar ↔ a < b) ∧ (a.digitChar = b.digitChar ↔ a = b) := by
  decide

theorem digits_lt_iff (hwidth : 0 < width) (hm : m < 10 ^ width) (hn : n < 10 ^ width) :
    digits width m < digits width n ↔ m < n := by
  rw [digits_eq_places hwidth hm, digits_eq_places hwidth hn, map_lt_map_iff, places_lt_iff hm hn]
  intro a ha b hb
  exact digitChar_lt_iff a (lt_of_mem_places (by decide) ha) b (lt_of_mem_places (by decide) hb)

theorem digits_inj : digits width m = digits width n ↔ m = n := by
  refine ⟨fun h => ?_, congrArg _⟩
  rw [← foldl_digits width m, h, foldl_digits]

/-- Numbers in digits of one width decide the order, unless they are the same. -/
theorem digits_append_lt_iff (hwidth : 0 < width) (hm : m < 10 ^ width) (hn : n < 10 ^ width)
    {cs cs' : List Char} :
    digits width m ++ cs < digits width n ++ cs' ↔ m < n ∨ m = n ∧ cs < cs' := by
  rw [append_lt_append_iff (by rw [length_digits hwidth hm, length_digits hwidth hn]),
    digits_lt_iff hwidth hm hn, digits_inj]

/-- The characters are so many digits, which read as the number. -/
def Numeral (width n : Nat) (cs : List Char) : Prop :=
  cs.length = width ∧ (∀ c ∈ cs, c.isDigit = true) ∧ Nat.ofDigitChars 10 cs 0 = n

theorem digitChar_of_isDigit {c : Char} (h : c.isDigit = true) :
    c.toNat - 48 < 10 ∧ (c.toNat - 48).digitChar = c := by
  have hc := toNat_of_isDigit h
  have hlt : c.toNat - 48 < 10 := by omega
  refine ⟨hlt, Char.toNat_inj.mp ?_⟩
  rw [Nat.toNat_digitChar_of_lt_ten hlt]
  omega

/-- So many digits are those of the number that they read as. -/
theorem eq_map_places {cs : List Char} (h : ∀ c ∈ cs, c.isDigit = true) :
    Nat.ofDigitChars 10 cs 0 < 10 ^ cs.length ∧
      (places 10 cs.length (Nat.ofDigitChars 10 cs 0)).map Nat.digitChar = cs := by
  induction cs using List.reverseRecOn with
  | nil => exact ⟨Nat.one_pos, rfl⟩
  | append_singleton cs c ih =>
    obtain ⟨hlt, hrest⟩ := ih fun c' hc' => h c' (List.mem_append_left _ hc')
    obtain ⟨hc, hchar⟩ := digitChar_of_isDigit (h c (List.mem_append_right _ List.mem_cons_self))
    have hvalue : Nat.ofDigitChars 10 (cs ++ [c]) 0 =
        10 * Nat.ofDigitChars 10 cs 0 + (c.toNat - 48) := by
      rw [Nat.ofDigitChars_append, Nat.ofDigitChars_cons]
      rfl
    have hhigh : Nat.ofDigitChars 10 (cs ++ [c]) 0 / 10 = Nat.ofDigitChars 10 cs 0 := by omega
    have hlow : Nat.ofDigitChars 10 (cs ++ [c]) 0 % 10 = c.toNat - 48 := by omega
    rw [List.length_append, List.length_singleton, places, hhigh, hlow, List.map_append, hrest,
      List.map_singleton, hchar, Nat.pow_succ]
    exact ⟨by omega, rfl⟩

theorem numeral_iff (hwidth : 0 < width) {cs : List Char} :
    Numeral width n cs ↔ n < 10 ^ width ∧ cs = digits width n := by
  constructor
  · rintro ⟨rfl, hdigits, rfl⟩
    obtain ⟨hlt, hplaces⟩ := eq_map_places hdigits
    exact ⟨hlt, hplaces.symm.trans (digits_eq_places hwidth hlt).symm⟩
  · rintro ⟨hlt, rfl⟩
    refine ⟨length_digits hwidth hlt, isDigit_of_mem_digits, ?_⟩
    rw [← foldl_eq_ofDigitChars, foldl_digits]

end Digits

end LightClient.Moment

namespace LightClient

/-! ## Stamps -/

/-- An existing date, in a year of four digits, and a time of day, with milliseconds if they are
there. A second 60 may stand behind each second 59. -/
structure Stamp where
  year : Nat
  month : Nat
  day : Nat
  hour : Nat
  minute : Nat
  second : Nat
  millis : Option Nat
  year_le : year ≤ 9999
  date_valid : (Date.mk year month day).valid = true
  hour_le : hour ≤ 23
  minute_le : minute ≤ 59
  second_le : second ≤ 60
  millis_lt : ∀ n ∈ millis, n < 1000

namespace Stamp

open Moment

def date (st : Stamp) : Date :=
  ⟨st.year, st.month, st.day⟩

/-- The milliseconds from the start of the day. Second 60 starts a thousand after second 59. -/
def clock (st : Stamp) : Nat :=
  ((st.hour * 60 + st.minute) * 60 + st.second) * 1000 + st.millis.getD 0

/-- The text has the fields in four digits or two, with the marks between them, and three digits
behind a point if there are milliseconds. -/
def Written (st : Stamp) (text : String) : Prop :=
  ∃ year month day hour minute second fraction : List Char,
    Numeral 4 st.year year ∧ Numeral 2 st.month month ∧ Numeral 2 st.day day ∧
    Numeral 2 st.hour hour ∧ Numeral 2 st.minute minute ∧ Numeral 2 st.second second ∧
    (st.millis = none ∧ fraction = [] ∨
      ∃ n cs, st.millis = some n ∧ Numeral 3 n cs ∧ fraction = '.' :: cs) ∧
    text = String.ofList (year ++ '-' :: (month ++ '-' :: (day ++ 'T' ::
      (hour ++ ':' :: (minute ++ ':' :: (second ++ fraction))))))

def fraction (st : Stamp) : List Char :=
  match st.millis with
  | none => []
  | some n => '.' :: digits 3 n

def chars (st : Stamp) : List Char :=
  stampChars st.year st.month st.day st.hour st.minute st.second st.fraction

def text (st : Stamp) : String :=
  String.ofList st.chars

/-- The moment that is read from the text. -/
def moment (st : Stamp) : Moment where
  second := st.date.toDays * 86400 +
    (st.hour * 3600 + st.minute * 60 + (st.second - st.second / 60) : Nat)
  nanos := st.second / 60 * 1000000000 + st.millis.getD 0 * 1000000

variable {st st' : Stamp}

/-- Each field fits into its digits. -/
theorem fits (st : Stamp) : st.year < 10 ^ 4 ∧ st.month < 10 ^ 2 ∧ st.day < 10 ^ 2 ∧
    st.hour < 10 ^ 2 ∧ st.minute < 10 ^ 2 ∧ st.second < 10 ^ 2 := by
  have hmonth : st.month ≤ 12 := (Date.valid_iff.mp st.date_valid).2.1
  have hday : st.day ≤ 31 :=
    Nat.le_trans (Date.valid_iff.mp st.date_valid).2.2.2 (Date.monthLength_le ..)
  have := st.year_le
  have := st.hour_le
  have := st.minute_le
  have := st.second_le
  omega

theorem millis_getD_lt (st : Stamp) : st.millis.getD 0 < 1000 := by
  cases h : st.millis with
  | none => decide
  | some n => exact st.millis_lt n h

/-- There is one text for the fields. -/
theorem written_iff {text : String} : st.Written text ↔ text = st.text := by
  obtain ⟨hyear, hmonth, hday, hhour, hminute, hsecond⟩ := st.fits
  simp only [Written, numeral_iff (show 0 < 4 by decide), numeral_iff Nat.two_pos,
    numeral_iff (show 0 < 3 by decide)]
  constructor
  · rintro ⟨_, _, _, _, _, _, _, ⟨-, rfl⟩, ⟨-, rfl⟩, ⟨-, rfl⟩, ⟨-, rfl⟩, ⟨-, rfl⟩, ⟨-, rfl⟩,
      ⟨hmillis, rfl⟩ | ⟨n, _, hmillis, ⟨-, rfl⟩, rfl⟩, rfl⟩
    · rw [Stamp.text, chars, fraction, hmillis]
      rfl
    · rw [Stamp.text, chars, fraction, hmillis]
      rfl
  · rintro rfl
    refine ⟨_, _, _, _, _, _, st.fraction, ⟨hyear, rfl⟩, ⟨hmonth, rfl⟩, ⟨hday, rfl⟩,
      ⟨hhour, rfl⟩, ⟨hminute, rfl⟩, ⟨hsecond, rfl⟩, ?_, rfl⟩
    rw [fraction]
    cases hmillis : st.millis with
    | none => exact .inl ⟨rfl, rfl⟩
    | some n => exact .inr ⟨n, _, rfl, ⟨st.millis_lt n hmillis, rfl⟩, rfl⟩

/-! ## Reading -/

theorem takes_fraction (st : Stamp) :
    Scanner.Takes Scanner.millis st.fraction (st.millis.getD 0) [] := by
  rw [fraction]
  cases hmillis : st.millis with
  | none => rfl
  | some n => exact Scanner.takes_millis (st.millis_lt n hmillis) []

theorem ofText_text (st : Stamp) : Moment.ofText st.text = .ok st.moment :=
  ofText_stamp st.year_le st.date_valid st.hour_le st.minute_le st.second_le st.takes_fraction

theorem millis_moment (st : Stamp) :
    st.moment.millis = st.date.toDays * 86400000 + st.clock := by
  have hsecond := st.second_le
  have hmillis := st.millis_getD_lt
  simp only [moment, Moment.millis, clock]
  omega

/-! ## Order -/

theorem toNat_lt_of_mem_chars (st : Stamp) : ∀ c ∈ st.chars, c.toNat < 128 := by
  have hdigits {width n : Nat} : ∀ c ∈ digits width n, c.toNat < 128 :=
    fun c hc => Nat.lt_of_le_of_lt (toNat_of_isDigit (isDigit_of_mem_digits c hc)).2 (by decide)
  have hfraction : ∀ c ∈ st.fraction, c.toNat < 128 := by
    rw [fraction]
    cases st.millis with
    | none => exact fun _ hc => nomatch hc
    | some n => exact List.forall_mem_cons.mpr ⟨by decide, hdigits⟩
  simp only [chars, stampChars, List.forall_mem_append, List.forall_mem_singleton]
  exact ⟨hdigits, by decide, hdigits, by decide, hdigits, by decide, hdigits, by decide, hdigits,
    by decide, hdigits, hfraction⟩

/-- The first field that differs decides the order of the characters. -/
theorem chars_lt_iff : st.chars < st'.chars ↔
    st.year < st'.year ∨ st.year = st'.year ∧ (st.month < st'.month ∨ st.month = st'.month ∧
      (st.day < st'.day ∨ st.day = st'.day ∧ (st.hour < st'.hour ∨ st.hour = st'.hour ∧
        (st.minute < st'.minute ∨ st.minute = st'.minute ∧
          (st.second < st'.second ∨ st.second = st'.second ∧ st.fraction < st'.fraction))))) := by
  obtain ⟨hyear, hmonth, hday, hhour, hminute, hsecond⟩ := st.fits
  obtain ⟨hyear', hmonth', hday', hhour', hminute', hsecond'⟩ := st'.fits
  rw [chars, chars, stampChars, stampChars]
  simp only [List.singleton_append]
  rw [digits_append_lt_iff (by decide) hyear hyear', List.cons_lt_cons_self,
    digits_append_lt_iff Nat.two_pos hmonth hmonth', List.cons_lt_cons_self,
    digits_append_lt_iff Nat.two_pos hday hday', List.cons_lt_cons_self,
    digits_append_lt_iff Nat.two_pos hhour hhour', List.cons_lt_cons_self,
    digits_append_lt_iff Nat.two_pos hminute hminute', List.cons_lt_cons_self,
    digits_append_lt_iff Nat.two_pos hsecond hsecond']

theorem fraction_lt_iff {n n' : Nat} (h : st.millis = some n) (h' : st'.millis = some n') :
    st.fraction < st'.fraction ↔ n < n' := by
  rw [fraction, fraction, h, h', List.cons_lt_cons_self,
    digits_lt_iff (by decide) (st.millis_lt n h) (st'.millis_lt n' h')]

/-- Texts with milliseconds, and without leap seconds, stand in the order of their moments. -/
theorem text_lt_iff {n n' : Nat} (hsecond : st.second ≤ 59) (hsecond' : st'.second ≤ 59)
    (h : st.millis = some n) (h' : st'.millis = some n') :
    utf8 st.text < utf8 st'.text ↔ st.moment.millis < st'.moment.millis := by
  have hdays := Date.toDays_lt_iff st.date_valid st'.date_valid
  have hday := Date.toDays_inj st.date_valid st'.date_valid
  rw [text, text, utf8_lt_utf8_iff st.toNat_lt_of_mem_chars st'.toNat_lt_of_mem_chars,
    chars_lt_iff, fraction_lt_iff h h', millis_moment, millis_moment]
  have hn := st.millis_lt n h
  have hn' := st'.millis_lt n' h'
  have := st.hour_le
  have := st'.hour_le
  have := st.minute_le
  have := st'.minute_le
  -- What is left compares days first and the time of day second, which stays below a whole day.
  simp only [Date.Before, Date.mk.injEq] at hdays hday
  simp only [clock, h, h', Option.getD_some, date]
  omega

end Stamp

/-! ## Moments -/

namespace Moment

section Stamp

variable {m : Moment} (h0 : 0 ≤ m.date.year) (h9999 : m.date.year ≤ 9999)
  (hnanos : m.nanos < 1000000000)

/-- The date and time of day of a moment whose year has four digits, and that is in no leap
second. -/
def stamp : Stamp where
  year := m.date.year.toNat
  month := m.date.month
  day := m.date.day
  hour := m.secondOfDay / 3600
  minute := m.secondOfDay / 60 % 60
  second := m.secondOfDay % 60
  millis := some (m.nanos / 1000000)
  year_le := year_toNat_le h9999
  date_valid := by
    rw [date_eq h0]
    exact m.date_valid
  hour_le := m.hour_le
  minute_le := m.minute_le
  second_le := Nat.le_succ_of_le m.second_le
  millis_lt := by
    intro n hn
    obtain rfl := Option.some.inj hn
    omega

theorem text_stamp : (stamp h0 h9999 hnanos).text = m.isoText := by
  rw [isoText_eq h0 h9999, Nat.div_eq_of_lt hnanos, Nat.mod_eq_of_lt hnanos]
  rfl

/-- The stamp names the moment to the millisecond. -/
theorem millis_moment_stamp : (stamp h0 h9999 hnanos).moment.millis = m.millis := by
  have hread := (stamp h0 h9999 hnanos).ofText_text
  rw [text_stamp, ofText_isoText h0 h9999 hnanos] at hread
  rw [← Except.ok.inj hread, millis, millis, Nat.mul_div_cancel _ (by decide)]

end Stamp

/-- Texts of moments in years of four digits stand in the order of the moments. -/
theorem isoText_lt_iff {m m' : Moment} (h0 : 0 ≤ m.date.year) (h9999 : m.date.year ≤ 9999)
    (hnanos : m.nanos < 1000000000) (h0' : 0 ≤ m'.date.year) (h9999' : m'.date.year ≤ 9999)
    (hnanos' : m'.nanos < 1000000000) :
    utf8 m.isoText < utf8 m'.isoText ↔ m.millis < m'.millis := by
  rw [← text_stamp h0 h9999 hnanos, ← text_stamp h0' h9999' hnanos',
    Stamp.text_lt_iff m.second_le m'.second_le rfl rfl, millis_moment_stamp, millis_moment_stamp]

end Moment

end LightClient

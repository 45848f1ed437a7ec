import LightClient.Calendar.Scan
import LightClient.Proofs.Calendar.Date
import LightClient.Proofs.Text.Basic
import Mathlib.Algebra.Ring.Nat
import Mathlib.Data.List.TakeWhile

/-!
Moments read from their text. Main statement: the digits of a date and a time of day are read as
the moment at that time of that date.
-/

namespace LightClient.Moment

/-! ## Digits -/

section Digits

variable {width n : Nat}

theorem length_digits (hwidth : 0 < width) (h : n < 10 ^ width) :
    (digits width n).length = width := by
  have hle : (Nat.toDigits 10 n).length ≤ width :=
    (Nat.length_toDigits_le_iff (by decide) hwidth).mpr h
  rw [digits, List.length_append, List.length_replicate]
  exact Nat.sub_add_cancel hle

theorem isDigit_of_mem_digits : ∀ c ∈ digits width n, c.isDigit = true := by
  intro c hc
  cases List.mem_append.mp hc with
  | inl hzero => exact List.eq_of_mem_replicate hzero ▸ rfl
  | inr hdigit => exact isDigit_of_mem_toDigits c hdigit

theorem foldl_digits (width n : Nat) :
    (digits width n).foldl (fun n c => n * 10 + (c.toNat - 0x30)) 0 = n :=
  (foldl_replicate_zero _ _).trans (foldl_toDigits n)

theorem exists_digit_cons (hwidth : 0 < width) (h : n < 10 ^ width) :
    ∃ c more, digits width n = c :: more ∧ c.isDigit = true := by
  have hpos : 0 < (digits width n).length := by rwa [length_digits hwidth h]
  obtain ⟨c, more, hcs⟩ := List.exists_cons_of_length_pos hpos
  exact ⟨c, more, hcs, isDigit_of_mem_digits c (hcs ▸ List.mem_cons_self)⟩

/-- No digit is white space. -/
theorem isBlank_of_isDigit {c : Char} (h : c.isDigit = true) : isBlank c = false := by
  have hc := toNat_of_isDigit h
  have hall : ∀ n : Fin 10, inRanges (48 + n) blankRanges = false := by decide
  have hblank := hall ⟨c.toNat - 48, by omega⟩
  rwa [Nat.add_sub_of_le hc.1] at hblank

end Digits

namespace Scanner

variable {α β : Type} {p : Scanner α} {f : α → Scanner β} {a : α} {b : β}
  {cs cs' rest : List Char}

/-- The scanner takes these characters in front of the rest and gives the value. -/
def Takes (p : Scanner α) (cs : List Char) (a : α) (rest : List Char) : Prop :=
  p (cs ++ rest) = .ok (a, rest)

theorem Takes.bind (h : Takes p cs a (cs' ++ rest)) (h' : Takes (f a) cs' b rest) :
    Takes (p >>= f) (cs ++ cs') b rest := by
  rw [Takes, List.append_assoc]
  change (p (cs ++ (cs' ++ rest)) >>= fun x => f x.1 x.2) = _
  rw [h]
  exact h'

theorem Takes.map (h : Takes p cs a rest) (g : α → β) : Takes (g <$> p) cs (g a) rest := by
  change (p (cs ++ rest) >>= fun x => Except.ok (g x.1, x.2)) = _
  rw [h]
  rfl

theorem takes_literal (c : Char) (rest : List Char) : Takes (literal c) [c] () rest :=
  if_pos rfl

/-- Just the digits that a number may have are taken. -/
theorem takes_number (digits : List Char) (hne : digits ≠ [])
    (hdigits : ∀ c ∈ digits, c.isDigit = true) (rest : List Char) :
    Takes (number digits.length) digits
      (digits.foldl (fun n c => n * 10 + (c.toNat - 0x30)) 0) rest := by
  have htake : ((digits ++ rest).take digits.length).takeWhile Char.isDigit = digits := by
    rw [List.take_left, List.takeWhile_eq_self_iff]
    exact hdigits
  cases digits with
  | nil => exact absurd rfl hne
  | cons c digits =>
    rw [List.cons_append] at htake
    rw [Takes, number.eq_def, List.cons_append]
    simp only [htake]
    rw [← List.cons_append, List.drop_left]

theorem takes_digits {width n : Nat} (hwidth : 0 < width) (h : n < 10 ^ width)
    (rest : List Char) : Takes (number width) (digits width n) n rest := by
  have hlength := length_digits hwidth h
  have hnumber := takes_number (digits width n) (List.ne_nil_of_length_pos (by rwa [hlength])) isDigit_of_mem_digits rest
  rwa [hlength, foldl_digits] at hnumber

/-- In front of a digit there is nothing to skip. -/
theorem takes_skipBlank {width n : Nat} (hwidth : 0 < width) (h : n < 10 ^ width)
    (rest : List Char) : Takes skipBlank [] () (digits width n ++ rest) := by
  obtain ⟨c, more, hcs, hc⟩ := exists_digit_cons hwidth h
  have hblank : ¬ isBlank c = true := by simp [isBlank_of_isDigit hc]
  rw [hcs]
  exact congrArg (fun cs => Except.ok ((), cs)) (List.dropWhile_cons_of_neg hblank)

theorem takes_between {low high n : Nat} (hlow : low ≤ n) (hhigh : n ≤ high) (h : n < 100)
    (rest : List Char) : Takes (between low high) (digits 2 n) n rest := by
  apply Takes.bind (takes_skipBlank Nat.two_pos h rest)
  rw [← List.append_nil (digits 2 n)]
  apply Takes.bind (takes_digits Nat.two_pos h _)
  rw [if_pos ⟨hlow, hhigh⟩]
  rfl

/-- A year of four digits has no sign. -/
theorem takes_year {n : Nat} (h : n ≤ 9999) (rest : List Char) :
    Takes year (digits 4 n) n rest := by
  have hlt : n < 10 ^ 4 := Nat.lt_succ_of_le h
  obtain ⟨c, more, hcs, hc⟩ := exists_digit_cons (by decide : 0 < 4) hlt
  apply Takes.bind (takes_skipBlank (by decide) hlt rest)
  rw [← List.append_nil (digits 4 n)]
  apply Takes.bind (a := (n : Int))
  · rw [Takes]
    split
    · next heq =>
      rw [hcs, List.cons_append, List.cons.injEq] at heq
      exact nomatch heq.1 ▸ hc
    · next heq =>
      rw [hcs, List.cons_append, List.cons.injEq] at heq
      exact nomatch heq.1 ▸ hc
    · next => exact (takes_digits (by decide) hlt _).map _
  · rw [if_pos ⟨by omega, by omega⟩]
    rfl

theorem takes_millis {n : Nat} (h : n < 1000) (rest : List Char) :
    Takes millis ('.' :: digits 3 n) n rest := by
  have hlength : (digits 3 n).length = 3 := length_digits (by decide) h
  have hdigits := takes_digits (by decide : 0 < 3) h rest
  have hall : ∀ c ∈ digits 3 n, c.isDigit = true := isDigit_of_mem_digits
  obtain ⟨a, b, c, habc⟩ := List.length_eq_three.mp hlength
  rw [habc] at hdigits hall ⊢
  have hdigit : a.isDigit ∧ b.isDigit ∧ c.isDigit := by simpa using hall
  change (if a.isDigit ∧ b.isDigit ∧ c.isDigit then _ else _) = _
  rw [if_pos hdigit]
  exact hdigits

end Scanner

/-- The digits of a date and a time of day, with the marks between and something behind them. -/
def stampChars (year month day hour minute second : Nat) (tail : List Char) : List Char :=
  digits 4 year ++ (['-'] ++ (digits 2 month ++ (['-'] ++ (digits 2 day ++ (['T'] ++
    (digits 2 hour ++ ([':'] ++ (digits 2 minute ++ ([':'] ++ (digits 2 second ++ tail))))))))))

namespace Scanner

theorem takes_moment {year month day hour minute second millis : Nat} {fraction : List Char}
    (hyear : year ≤ 9999) (hdate : (Date.mk year month day).valid = true) (hhour : hour ≤ 23)
    (hminute : minute ≤ 59) (hsecond : second ≤ 60)
    (hmillis : Takes Scanner.millis fraction millis []) :
    Takes (moment true) (stampChars year month day hour minute second fraction)
      ⟨(Date.mk year month day).toDays * 86400 +
        (hour * 3600 + minute * 60 + (second - second / 60) : Nat),
        second / 60 * 1000000000 + millis * 1000000⟩ [] := by
  have hvalid := hdate
  simp only [Date.valid, Bool.and_eq_true, decide_eq_true_eq] at hvalid
  have hday : day ≤ 31 := Nat.le_trans hvalid.2 (Date.monthLength_le ..)
  rw [moment, stampChars]
  apply Takes.bind (takes_year hyear _)
  apply Takes.bind (takes_literal '-' _)
  apply Takes.bind (takes_between hvalid.1.1.1 hvalid.1.1.2 (by omega) _)
  apply Takes.bind (takes_literal '-' _)
  apply Takes.bind (takes_between hvalid.1.2 hday (by omega) _)
  apply Takes.bind (takes_literal 'T' _)
  apply Takes.bind (takes_between (Nat.zero_le hour) hhour (by omega) _)
  apply Takes.bind (takes_literal ':' _)
  apply Takes.bind (takes_between (Nat.zero_le minute) hminute (by omega) _)
  apply Takes.bind (takes_literal ':' _)
  apply Takes.bind (takes_between (Nat.zero_le second) hsecond (by omega) _)
  rw [← List.append_nil fraction]
  apply Takes.bind hmillis
  apply Takes.bind (show Takes finish [] () ([] ++ []) from rfl)
  rw [if_neg (by simp only [hdate, Bool.not_true, Bool.false_eq_true, false_or]; omega)]
  rfl

end Scanner

section Text

variable {year month day hour minute second millis : Nat} {fraction : List Char}

/-- The digits of a date and a time are read as that time of that date. A second 60 is the leap
second behind second 59. -/
theorem ofText_stamp (hyear : year ≤ 9999) (hdate : (Date.mk year month day).valid = true)
    (hhour : hour ≤ 23) (hminute : minute ≤ 59) (hsecond : second ≤ 60)
    (hmillis : Scanner.Takes Scanner.millis fraction millis []) :
    ofText (String.ofList (stampChars year month day hour minute second fraction)) =
      .ok ⟨(Date.mk year month day).toDays * 86400 +
        (hour * 3600 + minute * 60 + (second - second / 60) : Nat),
        second / 60 * 1000000000 + millis * 1000000⟩ := by
  have htakes := Scanner.takes_moment hyear hdate hhour hminute hsecond hmillis
  rw [Scanner.Takes, List.append_nil] at htakes
  have hrun (cs : List Char) : (Scanner.moment true).run' cs =
    (·.1) <$> Scanner.moment true cs := rfl
  rw [ofText, String.toList_ofList, hrun, htakes]
  rfl

variable {m : Moment}

theorem isoText_eq (h0 : 0 ≤ m.date.year) (h9999 : m.date.year ≤ 9999) :
    m.isoText = String.ofList (stampChars m.date.year.toNat m.date.month m.date.day
      (m.secondOfDay / 3600) (m.secondOfDay / 60 % 60)
      (m.secondOfDay % 60 + m.nanos / 1000000000)
      ('.' :: digits 3 (m.nanos % 1000000000 / 1000000))) := by
  rw [isoText, dateChars, yearChars, if_pos ⟨h0, h9999⟩, timeChars, stampChars]
  simp only [List.append_assoc, List.cons_append, List.nil_append]

theorem date_valid (m : Moment) : m.date.valid = true :=
  (Date.ofDays_spec _).1

theorem year_toNat_le (h9999 : m.date.year ≤ 9999) : m.date.year.toNat ≤ 9999 :=
  Int.toNat_le.mpr h9999

theorem hour_le (m : Moment) : m.secondOfDay / 3600 ≤ 23 := by
  rw [secondOfDay]
  omega

theorem minute_le (m : Moment) : m.secondOfDay / 60 % 60 ≤ 59 := by
  omega

theorem second_le (m : Moment) : m.secondOfDay % 60 ≤ 59 := by
  omega

/-- From year 0 on, the year is the natural number that is written. -/
theorem date_eq (h0 : 0 ≤ m.date.year) :
    Date.mk (m.date.year.toNat : Int) m.date.month m.date.day = m.date := by
  rw [Int.toNat_of_nonneg h0]

/-- A moment of a year of four digits, and of no leap second, is read back from its text to the
millisecond. -/
theorem ofText_isoText (h0 : 0 ≤ m.date.year) (h9999 : m.date.year ≤ 9999)
    (hnanos : m.nanos < 1000000000) :
    ofText m.isoText = .ok ⟨m.second, m.nanos / 1000000 * 1000000⟩ := by
  have hvalid := m.date_valid
  have hdays : m.date.toDays = m.second / 86400 := (Date.ofDays_spec _).2
  have hdate := date_eq h0
  have hmillis := Scanner.takes_millis (show m.nanos % 1000000000 / 1000000 < 1000 by omega) []
  have hleap : m.secondOfDay % 60 + m.nanos / 1000000000 ≤ 60 := by
    have := m.second_le
    omega
  rw [isoText_eq h0 h9999, ofText_stamp (year_toNat_le h9999) (by rwa [hdate]) m.hour_le
    m.minute_le hleap hmillis, hdate]
  have hsecond : m.date.toDays * 86400 + (m.secondOfDay / 3600 * 3600 +
      m.secondOfDay / 60 % 60 * 60 + (m.secondOfDay % 60 + m.nanos / 1000000000 -
        (m.secondOfDay % 60 + m.nanos / 1000000000) / 60) : Nat) = m.second := by
    rw [hdays]
    simp only [secondOfDay] at *
    omega
  have hfraction : (m.secondOfDay % 60 + m.nanos / 1000000000) / 60 * 1000000000 +
      m.nanos % 1000000000 / 1000000 * 1000000 = m.nanos / 1000000 * 1000000 := by
    omega
  rw [hsecond, hfraction]

end Text

end LightClient.Moment

/-
# The Gregorian calendar

Years have 365 days, and 366 where they are leap years; `Date` is a day of a month that has
it. The number of a date counts the days from the first of January of year 0, over the years
before it and the months before it. Dates come in the order of their numbers (`number_lt_iff`),
so a date is what its number says (`number_injective`).
-/
import Mathlib.Tactic.Common
import Mathlib.Tactic.IntervalCases

namespace LocaiLink
namespace Civil

def isLeap (year : ℕ) : Bool := year % 4 = 0 && (year % 100 ≠ 0 || year % 400 = 0)

def yearLength (year : ℕ) : ℕ := if isLeap year then 366 else 365

def monthLength (year month : ℕ) : ℕ :=
  if month = 2 then if isLeap year then 29 else 28
  else if month ∈ [4, 6, 9, 11] then 30
  else 31

/-- A day of the calendar. -/
structure Date where
  year : ℕ
  month : ℕ
  day : ℕ
  monthValid : 1 ≤ month ∧ month ≤ 12
  dayValid : 1 ≤ day ∧ day ≤ monthLength year month

/-- The days of the years before. -/
def daysBeforeYear : ℕ → ℕ
  | 0 => 0
  | year + 1 => daysBeforeYear year + yearLength year

/-- The days of the months before, in a year. -/
def daysBeforeMonth (year : ℕ) : ℕ → ℕ
  | 0 | 1 => 0
  | month + 2 => daysBeforeMonth year (month + 1) + monthLength year (month + 1)

def Date.number (d : Date) : ℕ := daysBeforeYear d.year + daysBeforeMonth d.year d.month + (d.day - 1)

theorem yearLength_le (year : ℕ) : yearLength year ≤ 366 := by
  unfold yearLength
  split_ifs <;> omega

theorem isLeap_iff {year : ℕ} : isLeap year = true ↔ year % 4 = 0 ∧ (year % 100 ≠ 0 ∨ year % 400 = 0) := by
  unfold isLeap
  simp

/-- The years before: one in four is a leap year, but not one in a hundred, but one in four hundred. -/
theorem daysBeforeYear_eq (year : ℕ) : daysBeforeYear year = 365 * year + (year + 3) / 4 + (year + 399) / 400 - (year + 99) / 100 := by
  induction year with
  | zero => rfl
  | succ year ih =>
    rw [daysBeforeYear, ih, yearLength]
    split_ifs with h
    · rw [isLeap_iff] at h
      omega
    · rw [isLeap_iff] at h
      omega

/-- The months before, counted out. -/
theorem daysBeforeMonth_eq (year : ℕ) : ∀ month, 1 ≤ month → month ≤ 13 → daysBeforeMonth year month =
    [0, 0, 31, 59, 90, 120, 151, 181, 212, 243, 273, 304, 334, 365].getD month 0 +
      (if isLeap year ∧ 2 < month then 1 else 0) := by
  intro month h1 h2
  cases h : isLeap year <;> interval_cases month <;> simp [daysBeforeMonth, monthLength, h]

theorem daysBeforeMonth_succ {year month : ℕ} (h : 1 ≤ month) :
    daysBeforeMonth year (month + 1) = daysBeforeMonth year month + monthLength year month := by
  obtain ⟨m, rfl⟩ : ∃ m, month = m + 1 := ⟨month - 1, by omega⟩
  rfl

theorem monotone_daysBeforeMonth {year a b : ℕ} (ha : 1 ≤ a) (h : a ≤ b) : daysBeforeMonth year a ≤ daysBeforeMonth year b := by
  induction h with
  | refl => exact le_rfl
  | @step b hb ih =>
    rw [Nat.succ_eq_add_one, daysBeforeMonth_succ (ha.trans hb)]
    omega

theorem monotone_daysBeforeYear {a b : ℕ} (h : a ≤ b) : daysBeforeYear a ≤ daysBeforeYear b := by
  induction h with
  | refl => exact le_rfl
  | @step b hb ih =>
    rw [Nat.succ_eq_add_one, daysBeforeYear]
    omega

theorem daysBeforeMonth_thirteen (year : ℕ) : daysBeforeMonth year 13 = yearLength year := by
  rw [daysBeforeMonth_eq year 13 (by omega) le_rfl, yearLength]
  cases isLeap year <;> rfl

namespace Date

variable {d e : Date}

/-- A date is before the first of the next month. -/
theorem number_lt_month (d : Date) : d.number < daysBeforeYear d.year + daysBeforeMonth d.year (d.month + 1) := by
  have hday := d.dayValid
  rw [number, daysBeforeMonth_succ d.monthValid.1]
  omega

/-- A date is before the first of the next year. -/
theorem number_lt_year (d : Date) : d.number < daysBeforeYear (d.year + 1) := by
  have hmonth : daysBeforeMonth d.year (d.month + 1) ≤ daysBeforeMonth d.year 13 :=
    monotone_daysBeforeMonth (by omega) (by have := d.monthValid; omega)
  have hlt := d.number_lt_month
  rw [daysBeforeMonth_thirteen] at hmonth
  rw [daysBeforeYear]
  omega

/-- Years first, then months, then days. -/
def Before (d e : Date) : Prop :=
  d.year < e.year ∨ d.year = e.year ∧ (d.month < e.month ∨ d.month = e.month ∧ d.day < e.day)

theorem number_lt_of_before (h : d.Before e) : d.number < e.number := by
  rcases h with hyear | ⟨hyear, hmonth | ⟨hmonth, hday⟩⟩
  · have hd := d.number_lt_year
    have hnext : daysBeforeYear (d.year + 1) ≤ daysBeforeYear e.year := monotone_daysBeforeYear hyear
    rw [number.eq_1 e]
    omega
  · have hd := d.number_lt_month
    have hnext : daysBeforeMonth d.year (d.month + 1) ≤ daysBeforeMonth d.year e.month :=
      monotone_daysBeforeMonth (by omega) hmonth
    rw [number.eq_1 e, ← hyear]
    omega
  · have hd := d.dayValid
    rw [number, number, hyear, hmonth]
    omega

theorem before_trichotomy (d e : Date) : d.Before e ∨ d = e ∨ e.Before d := by
  obtain ⟨y, m, a, hm, ha⟩ := d
  obtain ⟨y', m', a', hm', ha'⟩ := e
  rcases Nat.lt_trichotomy y y' with h | rfl | h
  · exact .inl (.inl h)
  · rcases Nat.lt_trichotomy m m' with h | rfl | h
    · exact .inl (.inr ⟨rfl, .inl h⟩)
    · rcases Nat.lt_trichotomy a a' with h | rfl | h
      · exact .inl (.inr ⟨rfl, .inr ⟨rfl, h⟩⟩)
      · exact .inr (.inl rfl)
      · exact .inr (.inr (.inr ⟨rfl, .inr ⟨rfl, h⟩⟩))
    · exact .inr (.inr (.inr ⟨rfl, .inl h⟩))
  · exact .inr (.inr (.inl h))

/-- **Dates come in the order of their numbers.** -/
theorem number_lt_iff : d.number < e.number ↔ d.Before e := by
  refine ⟨fun h => ?_, number_lt_of_before⟩
  rcases before_trichotomy d e with hde | rfl | hed
  · exact hde
  · exact absurd h (lt_irrefl _)
  · exact absurd h (Nat.lt_asymm (number_lt_of_before hed))

/-- A date is what its number says. -/
theorem number_injective (h : d.number = e.number) : d = e := by
  rcases before_trichotomy d e with hde | hde | hed
  · exact absurd h (number_lt_of_before hde).ne
  · exact hde
  · exact absurd h (number_lt_of_before hed).ne'

theorem day_le (d : Date) : d.day ≤ 31 := by
  have hday := d.dayValid
  unfold monthLength at hday
  split_ifs at hday <;> omega

end Date

/-! ### The time of day -/

/-- A second of a day. -/
structure Moment where
  date : Date
  hour : ℕ
  minute : ℕ
  second : ℕ
  hourValid : hour < 24
  minuteValid : minute < 60
  secondValid : second < 60

namespace Moment

variable {m n : Moment}

/-- The seconds since the first of January of year 0. -/
def seconds (m : Moment) : ℕ := 86400 * m.date.number + (3600 * m.hour + 60 * m.minute + m.second)

/-- Dates first, then hours, then minutes, then seconds. -/
def Before (m n : Moment) : Prop :=
  m.date.Before n.date ∨ m.date = n.date ∧
    (m.hour < n.hour ∨ m.hour = n.hour ∧ (m.minute < n.minute ∨ m.minute = n.minute ∧ m.second < n.second))

/-- Moments come in the order of their seconds. -/
theorem before_of_seconds_lt (h : m.seconds < n.seconds) : m.Before n := by
  have hh := n.hourValid
  have hm := n.minuteValid
  have hs := n.secondValid
  unfold seconds at h
  rcases Nat.lt_trichotomy m.date.number n.date.number with hlt | heq | hgt
  · exact .inl (Date.number_lt_iff.mp hlt)
  · exact .inr ⟨Date.number_injective heq, by have := m.minuteValid; have := m.secondValid; omega⟩
  · omega

theorem seconds_injective (h : m.seconds = n.seconds) : m = n := by
  obtain ⟨d, hour, minute, second, hh, hm, hs⟩ := m
  obtain ⟨e, hour', minute', second', hh', hm', hs'⟩ := n
  unfold seconds at h
  dsimp only at h
  obtain rfl : d = e := Date.number_injective (by omega)
  obtain rfl : hour = hour' := by omega
  obtain rfl : minute = minute' := by omega
  obtain rfl : second = second' := by omega
  rfl

/-- The moment of a second of a day. -/
def ofDay (d : Date) (tod : ℕ) (h : tod < 86400) : Moment where
  date := d
  hour := tod / 3600
  minute := tod % 3600 / 60
  second := tod % 60
  hourValid := by omega
  minuteValid := by omega
  secondValid := by omega

theorem seconds_ofDay (d : Date) (tod : ℕ) (h : tod < 86400) : (ofDay d tod h).seconds = 86400 * d.number + tod := by
  unfold seconds ofDay
  dsimp only
  omega

end Moment

/-! ### Years from March -/

/-- The days before the first of March of a year. -/
def daysBeforeMarch (year : ℕ) : ℕ := daysBeforeYear year + daysBeforeMonth year 3

theorem daysBeforeMarch_eq (year : ℕ) : daysBeforeMarch year + year / 100 = 365 * year + year / 4 + year / 400 + 60 := by
  rw [daysBeforeMarch, daysBeforeYear_eq, daysBeforeMonth_eq year 3 (by omega) (by omega)]
  cases h : isLeap year with
  | true =>
    rw [isLeap_iff] at h
    simp
    omega
  | false =>
    have hnot : ¬(year % 4 = 0 ∧ (year % 100 ≠ 0 ∨ year % 400 = 0)) := fun hleap => by rw [isLeap_iff.mpr hleap] at h; cases h
    simp
    omega

/-- A year from March on ends with the February of the next one. -/
theorem daysBeforeMarch_succ (year : ℕ) : daysBeforeMarch (year + 1) = daysBeforeMarch year + yearLength (year + 1) := by
  unfold daysBeforeMarch
  rw [daysBeforeYear, daysBeforeMonth_eq (year + 1) 3 (by omega) (by omega), daysBeforeMonth_eq year 3 (by omega) (by omega)]
  unfold yearLength
  cases isLeap year <;> cases isLeap (year + 1) <;> simp

/-- The months before, from March on: five of them have 153 days. -/
theorem daysBeforeMonth_march (year : ℕ) {mp : ℕ} (h : mp < 10) :
    daysBeforeMonth year (mp + 3) = daysBeforeMonth year 3 + (153 * mp + 2) / 5 ∧
      (mp < 9 → monthLength year (mp + 3) + (153 * mp + 2) / 5 = (153 * (mp + 1) + 2) / 5) := by
  rw [daysBeforeMonth_eq year 3 (by omega) (by omega), daysBeforeMonth_eq year _ (by omega) (by omega)]
  cases hl : isLeap year <;> interval_cases mp <;> simp [monthLength]

theorem monthLength_december (year : ℕ) : monthLength year 12 = 31 := rfl

/-- The month and the day of a day of such a year. -/
theorem exists_date {year doy month mp : ℕ} (h : doy < yearLength (year + 1)) (hmp : mp = (5 * doy + 2) / 153)
    (hmonth : month = if mp < 10 then mp + 3 else mp - 9) : ∃ d : Date, d.year = (if month ≤ 2 then year + 1 else year) ∧
      d.month = month ∧ d.day = doy - (153 * mp + 2) / 5 + 1 ∧ d.number = daysBeforeMarch year + doy := by
  by_cases hearly : mp < 10
  · -- from March to December the month is one of the year itself
    rw [if_pos hearly] at hmonth
    subst hmonth
    obtain ⟨hbefore, hnext⟩ := daysBeforeMonth_march year hearly
    have hday : doy - (153 * mp + 2) / 5 + 1 ≤ monthLength year (mp + 3) := by
      by_cases hlast : mp < 9
      · have := hnext hlast
        omega
      · obtain rfl : mp = 9 := by omega
        rw [monthLength_december]
        omega
    refine ⟨⟨year, mp + 3, doy - (153 * mp + 2) / 5 + 1, by omega, by omega, hday⟩, (if_neg (by omega)).symm, rfl, rfl, ?_⟩
    simp only [Date.number, daysBeforeMarch, hbefore]
    omega
  · -- January and February are those of the next one
    rw [if_neg hearly] at hmonth
    have hfirst : daysBeforeYear (year + 1) = daysBeforeMarch year + 306 := by
      rw [daysBeforeMarch, daysBeforeYear, daysBeforeMonth_eq year 3 (by omega) (by omega), yearLength]
      cases isLeap year <;> simp
    have hfebruary : monthLength (year + 1) 2 + 337 = yearLength (year + 1) := by
      unfold monthLength yearLength
      cases isLeap (year + 1) <;> rfl
    have hlast := yearLength_le (year + 1)
    obtain rfl | rfl : mp = 10 ∨ mp = 11 := by omega
    · subst hmonth
      refine ⟨⟨year + 1, 1, doy - (153 * 10 + 2) / 5 + 1, by omega, by omega, ?_⟩, rfl, rfl, rfl, ?_⟩
      · rw [monthLength]
        simp
        omega
      · simp only [Date.number, hfirst, daysBeforeMonth]
        omega
    · subst hmonth
      refine ⟨⟨year + 1, 2, doy - (153 * 11 + 2) / 5 + 1, by omega, by omega, ?_⟩, rfl, rfl, rfl, ?_⟩
      · omega
      · simp only [Date.number, hfirst, daysBeforeMonth, monthLength]
        simp
        omega

end Civil
end LocaiLink

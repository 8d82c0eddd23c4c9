/-
# The timestamps of session files

`format_utc_compact` turns a time into the date and the time of day of UTC. It counts years
from March, so that the day that a leap year has more is the last one, in eras of 400 years.
None of its operations leaves the range of its integers, the date is that of the calendar
(`Civil`), and later times have later texts (`timestamps_ordered`), up to the end of year 9999.
-/
import LocaiLink.Base.Civil
import LocaiLink.Base.Numerals
import LocaiLink.Runtime.Selection

namespace LocaiLink
namespace Timestamps

/-! ### The machine's integers -/

/-- A result of `u64`, none where it overflows. -/
def u64 (x : ℤ) : Option ℤ := if 0 ≤ x ∧ x < 2 ^ 64 then some x else none

/-- A result of `i64`, none where it overflows. -/
def i64 (x : ℤ) : Option ℤ := if -2 ^ 63 ≤ x ∧ x < 2 ^ 63 then some x else none

/-- `x as u64` -/
def asU64 (x : ℤ) : ℤ := x % 2 ^ 64

/-- `x as i64` -/
def asI64 (x : ℤ) : ℤ := Int.bmod x (2 ^ 64)

/-- `{x:0width}` -/
def padded (width : ℕ) (x : ℤ) : List Char :=
  if 0 ≤ x then Text.numeral width x.toNat else '-' :: Text.numeral (width - 1) x.natAbs

/-- The year of an era that a day of the era is in. -/
def yearOfEra (doe : ℤ) : Option ℤ := do
  let days ← u64 ((← u64 ((← u64 (doe - doe / 1460)) + doe / 36524)) - doe / 146096)
  pure (days / 365)

/-- The day of that year. -/
def dayOfYear (doe yoe : ℤ) : Option ℤ := do
  u64 (doe - (← u64 ((← u64 ((← u64 (365 * yoe)) + yoe / 4)) - yoe / 100)))

/-- The month and the day of the month. -/
def monthAndDay (doy : ℤ) : Option (ℤ × ℤ) := do
  let mp := (← u64 ((← u64 (5 * doy)) + 2)) / 153
  let d ← u64 ((← u64 (doy - (← u64 ((← u64 (153 * mp)) + 2)) / 5)) + 1)
  let month ← if mp < 10 then u64 (mp + 3) else u64 (mp - 9)
  pure (month, d)

/-- The era of a day since the first of March of year 0. -/
def eraOf (z : ℤ) : Option ℤ := do
  let shifted ← if 0 ≤ z then some z else i64 (z - 146096)
  pure (shifted.tdiv 146097)

/-- The day of that era. -/
def dayOfEra (z era : ℤ) : Option ℤ := do
  pure (asU64 (← i64 (z - (← i64 (era * 146097)))))

/-- The year, counted from March. -/
def marchYear (yoe era : ℤ) : Option ℤ := do
  i64 (asI64 yoe + (← i64 (era * 400)))

/-- January and February are of the next one. -/
def calendarYear (y month : ℤ) : Option ℤ := if month ≤ 2 then i64 (y + 1) else some y

/-- The civil date of a day since 1970: year, month and day. -/
def civilFromDays (days : ℤ) : Option (ℤ × ℤ × ℤ) := do
  let z ← i64 (asI64 days + 719468)
  let era ← eraOf z
  let doe ← dayOfEra z era
  let yoe ← yearOfEra doe
  let y ← marchYear yoe era
  let doy ← dayOfYear doe yoe
  let (month, d) ← monthAndDay doy
  let year ← calendarYear y month
  pure (year, month, d)

/-- `format_utc_compact` -/
def formatUtcCompact (unixSecs : ℤ) : Option String := do
  let days := unixSecs / 86400
  let tod := unixSecs % 86400
  let h := tod / 3600
  let m := tod % 3600 / 60
  let s := tod % 60
  let (year, month, d) ← civilFromDays days
  pure (String.ofList (padded 4 year ++ padded 2 month ++ padded 2 d ++ '_' :: (padded 2 h ++ padded 2 m ++ padded 2 s)))

/-! ### The text of a moment -/

/-- A day and the seconds since it began, as `YYYYMMDD_HHMMSS`. -/
def stampOf (d : Civil.Date) (tod : ℕ) : List Char :=
  Text.numeral 4 d.year ++ Text.numeral 2 d.month ++ Text.numeral 2 d.day ++ '_' ::
    (Text.numeral 2 (tod / 3600) ++ Text.numeral 2 (tod % 3600 / 60) ++ Text.numeral 2 (tod % 60))

/-- The year, the month, the day, the hour, the minute and the second: `YYYYMMDD_HHMMSS`. -/
def stamp (m : Civil.Moment) : List Char :=
  Text.numeral 4 m.date.year ++ Text.numeral 2 m.date.month ++ Text.numeral 2 m.date.day ++ '_' ::
    (Text.numeral 2 m.hour ++ Text.numeral 2 m.minute ++ Text.numeral 2 m.second)

/-- What the times of Unix count from. -/
def epoch : Civil.Moment where
  date := ⟨1970, 1, 1, by decide, by decide⟩
  hour := 0
  minute := 0
  second := 0
  hourValid := by decide
  minuteValid := by decide
  secondValid := by decide

/-- The seconds that the years up to 9999 have, since the epoch. -/
def endOf9999 : ℕ := 86400 * Civil.daysBeforeYear 10000 - epoch.seconds

/-! ### No operation overflows -/

section Range

variable {x doe yoe doy days : ℤ}

theorem u64_eq (h : 0 ≤ x) (h' : x < 2 ^ 64) : u64 x = some x := if_pos ⟨h, h'⟩

theorem i64_eq (h : -2 ^ 63 ≤ x) (h' : x < 2 ^ 63) : i64 x = some x := if_pos ⟨h, h'⟩

theorem asU64_eq (h : 0 ≤ x) (h' : x < 2 ^ 64) : asU64 x = x := Int.emod_eq_of_lt h h'

theorem asI64_eq (h : 0 ≤ x) (h' : x < 2 ^ 63) : asI64 x = x := Int.bmod_eq_of_le (by omega) (by omega)

theorem yearOfEra_eq (h : 0 ≤ doe) (h' : doe ≤ 146096) :
    yearOfEra doe = some ((doe - doe / 1460 + doe / 36524 - doe / 146096) / 365) := by
  unfold yearOfEra
  simp only [u64_eq (x := doe - doe / 1460) (by omega) (by omega),
    u64_eq (x := doe - doe / 1460 + doe / 36524) (by omega) (by omega),
    u64_eq (x := doe - doe / 1460 + doe / 36524 - doe / 146096) (by omega) (by omega), Option.bind_eq_bind, Option.bind_some,
    Option.pure_def]

theorem dayOfYear_eq (h : 0 ≤ yoe) (h' : yoe ≤ 399) (hle : 365 * yoe + yoe / 4 - yoe / 100 ≤ doe) (hdoe : doe ≤ 146096) :
    dayOfYear doe yoe = some (doe - (365 * yoe + yoe / 4 - yoe / 100)) := by
  unfold dayOfYear
  simp only [u64_eq (x := 365 * yoe) (by omega) (by omega), u64_eq (x := 365 * yoe + yoe / 4) (by omega) (by omega),
    u64_eq (x := 365 * yoe + yoe / 4 - yoe / 100) (by omega) (by omega), Option.bind_eq_bind, Option.bind_some]
  exact u64_eq (by omega) (by omega)

theorem monthAndDay_eq (h : 0 ≤ doy) (h' : doy ≤ 365) :
    monthAndDay doy = some (if (5 * doy + 2) / 153 < 10 then (5 * doy + 2) / 153 + 3 else (5 * doy + 2) / 153 - 9,
      doy - (153 * ((5 * doy + 2) / 153) + 2) / 5 + 1) := by
  unfold monthAndDay
  simp only [u64_eq (x := 5 * doy) (by omega) (by omega), u64_eq (x := 5 * doy + 2) (by omega) (by omega), Option.bind_eq_bind,
    Option.bind_some, Option.pure_def]
  generalize hmp : (5 * doy + 2) / 153 = mp
  simp only [u64_eq (x := 153 * mp) (by omega) (by omega), u64_eq (x := 153 * mp + 2) (by omega) (by omega),
    u64_eq (x := doy - (153 * mp + 2) / 5) (by omega) (by omega), u64_eq (x := doy - (153 * mp + 2) / 5 + 1) (by omega) (by omega),
    Option.bind_some]
  split_ifs
  · rw [u64_eq (by omega) (by omega)]
    rfl
  · rw [u64_eq (by omega) (by omega)]
    rfl

theorem monthAndDay_cast {doy mp : ℕ} (h : doy ≤ 365) (hmp : mp = (5 * doy + 2) / 153) : monthAndDay doy =
    some (((if mp < 10 then mp + 3 else mp - 9 : ℕ) : ℤ), ((doy - (153 * mp + 2) / 5 + 1 : ℕ) : ℤ)) := by
  have hcast : (5 * (doy : ℤ) + 2) / 153 = mp := by omega
  rw [monthAndDay_eq (by omega) (by omega), hcast]
  refine congrArg some (Prod.ext ?_ ?_)
  · by_cases hearly : mp < 10
    · rw [if_pos hearly, if_pos (by omega)]
      rfl
    · rw [if_neg hearly, if_neg (by omega)]
      omega
  · have hle : (153 * mp + 2) / 5 ≤ doy := by omega
    show (doy : ℤ) - (153 * mp + 2) / 5 + 1 = ((doy - (153 * mp + 2) / 5 + 1 : ℕ) : ℤ)
    omega

/-- A day of the era is one of its year: the first of that year is not after it, that of the next one is. -/
theorem yearOfEra_spec {doe yoe : ℤ} (h : 0 ≤ doe) (h' : doe ≤ 146096)
    (hyoe : yoe = (doe - doe / 1460 + doe / 36524 - doe / 146096) / 365) : 365 * yoe + yoe / 4 - yoe / 100 ≤ doe ∧
      doe < 365 * (yoe + 1) + (yoe + 1) / 4 - (yoe + 1) / 100 + (yoe + 1) / 400 := by
  obtain rfl | hlt : doe = 146096 ∨ doe < 146096 := by omega
  · omega
  have hlast : doe / 146096 = 0 := by omega
  rw [hlast] at hyoe
  have hcentury : doe / 36524 = 0 ∨ doe / 36524 = 1 ∨ doe / 36524 = 2 ∨ doe / 36524 = 3 ∨ doe / 36524 = 4 := by omega
  have hyears : yoe / 100 = doe / 36524 := by
    rcases hcentury with hc | hc | hc | hc | hc <;> omega
  -- four years have a day more than 1460, so the quotient may be one ahead in the last of them
  have hfour : doe / 1460 - yoe / 4 = 0 ∨ doe / 1460 - yoe / 4 = 1 ∧ yoe % 4 = 3 := by
    rcases hcentury with hc | hc | hc | hc | hc <;> omega
  have hera : (yoe + 1) / 400 = 0 ∨ yoe = 399 := by omega
  have hnext : yoe % 4 = 3 ∧ (yoe + 1) / 4 = yoe / 4 + 1 ∧ (yoe + 1) / 100 ≤ yoe / 100 + 1 ∨
      (yoe + 1) / 4 = yoe / 4 ∧ (yoe + 1) / 100 = yoe / 100 := by
    by_cases h3 : yoe % 4 = 3
    · omega
    · have h99 : yoe % 100 ≠ 99 := by omega
      omega
  constructor
  · rcases hcentury with hc | hc | hc | hc | hc <;> omega
  · rcases hera with he | he <;> rcases hnext with hn | hn <;> rcases hcentury with hc | hc | hc | hc | hc <;> omega

/-- The days of an era, as numbers of the calendar. -/
theorem daysBeforeMarch_era {era yoe year : ℕ} (h : year = yoe + 400 * era) : Civil.daysBeforeMarch year + yoe / 100 =
    146097 * era + 365 * yoe + yoe / 4 + yoe / 400 + 60 := by
  have hmarch := Civil.daysBeforeMarch_eq year
  omega

/-- The year of an era, and the day of that year, of a day of the era. -/
theorem exists_yearOfEra {doe yoe doy : ℕ} (h : doe ≤ 146096) (hyoe : yoe = (doe - doe / 1460 + doe / 36524 - doe / 146096) / 365)
    (hdoy : doy = doe - (365 * yoe + yoe / 4 - yoe / 100)) : yoe ≤ 399 ∧ yearOfEra doe = some (yoe : ℤ) ∧
      dayOfYear doe yoe = some (doy : ℤ) ∧ doe + yoe / 100 = 365 * yoe + yoe / 4 + doy ∧
      doe + (yoe + 1) / 100 < 365 * (yoe + 1) + (yoe + 1) / 4 + (yoe + 1) / 400 := by
  have hcast : (yoe : ℤ) = ((doe : ℤ) - doe / 1460 + doe / 36524 - doe / 146096) / 365 := by omega
  have hyears : yoe ≤ 399 := by omega
  obtain ⟨hfirst, hnext⟩ := yearOfEra_spec (by omega) (by omega) hcast
  have hyear : yearOfEra doe = some (yoe : ℤ) := by rw [yearOfEra_eq (by omega) (by omega), hcast]
  have hday : dayOfYear doe yoe = some ((doe : ℤ) - (365 * yoe + yoe / 4 - yoe / 100)) :=
    dayOfYear_eq (by omega) (by omega) hfirst (by omega)
  clear hyoe hcast
  have hdoy' : (doy : ℤ) = doe - (365 * yoe + yoe / 4 - yoe / 100) := by omega
  have hsucc : (yoe : ℤ) + 1 = ((yoe + 1 : ℕ) : ℤ) := by omega
  rw [hsucc] at hnext
  exact ⟨hyears, hyear, hdoy' ▸ hday, by omega, by omega⟩

theorem eraOf_eq {era doe : ℕ} (hdoe : doe ≤ 146096) : eraOf (146097 * era + doe) = some (era : ℤ) := by
  unfold eraOf
  rw [if_pos (by omega)]
  exact congrArg some (by rw [Int.tdiv_eq_ediv_of_nonneg (by omega)]; omega)

theorem dayOfEra_eq {era doe : ℕ} (hdoe : doe ≤ 146096) (hera : era ≤ 24) : dayOfEra (146097 * era + doe) era = some (doe : ℤ) := by
  unfold dayOfEra
  rw [i64_eq (x := era * 146097) (by omega) (by omega), Option.bind_eq_bind, Option.bind_some,
    i64_eq (x := 146097 * era + doe - era * 146097) (by omega) (by omega), Option.bind_some, asU64_eq (by omega) (by omega)]
  exact congrArg some (by omega)

theorem marchYear_eq {era yoe : ℕ} (hyears : yoe ≤ 399) (hera : era ≤ 24) : marchYear yoe era = some ((yoe + 400 * era : ℕ) : ℤ) := by
  unfold marchYear
  rw [i64_eq (x := era * 400) (by omega) (by omega), Option.bind_eq_bind, Option.bind_some, asI64_eq (by omega) (by omega),
    i64_eq (by omega) (by omega)]
  exact congrArg some (by omega)

theorem calendarYear_eq {y month : ℕ} (hy : y ≤ 9999) :
    calendarYear y month = some ((if month ≤ 2 then y + 1 else y : ℕ) : ℤ) := by
  unfold calendarYear
  by_cases h : month ≤ 2
  · rw [if_pos (by omega), if_pos h, i64_eq (by omega) (by omega)]
    rfl
  · rw [if_neg (by omega), if_neg h]

/-- **The date of a day** is that of the calendar, and nothing overflows, up to the end of 9999. -/
theorem civilFromDays_date {days : ℕ} (h : days ≤ 2932896) : ∃ d : Civil.Date, d.number = days + 719528 ∧
    civilFromDays days = some ((d.year : ℤ), (d.month : ℤ), (d.day : ℤ)) ∧
    ∀ tod < 86400, Session.formatUtcCompact (86400 * days + tod) = stampOf d tod := by
  obtain ⟨era, hera⟩ : ∃ era, era = (days + 719468) / 146097 := ⟨_, rfl⟩
  obtain ⟨doe, hdoe⟩ : ∃ doe, doe = days + 719468 - era * 146097 := ⟨_, rfl⟩
  obtain ⟨yoe, hyoe⟩ : ∃ yoe, yoe = (doe - doe / 1460 + doe / 36524 - doe / 146096) / 365 := ⟨_, rfl⟩
  obtain ⟨doy, hdoy⟩ : ∃ doy, doy = doe - (365 * yoe + yoe / 4 - yoe / 100) := ⟨_, rfl⟩
  have hz : days + 719468 = 146097 * era + doe := by omega
  have hdoe' : doe ≤ 146096 := by omega
  have hera' : era ≤ 24 := by omega
  obtain ⟨hyears, hyear, hday, hfirst, hnext⟩ := exists_yearOfEra hdoe' hyoe hdoy
  have hmarch : Civil.daysBeforeMarch (yoe + 400 * era) + yoe / 100 = 146097 * era + 365 * yoe + yoe / 4 + yoe / 400 + 60 :=
    daysBeforeMarch_era rfl
  have hmarch' : Civil.daysBeforeMarch (yoe + 400 * era + 1) + (yoe + 1) / 100 =
      146097 * era + 365 * (yoe + 1) + (yoe + 1) / 4 + (yoe + 1) / 400 + 60 := daysBeforeMarch_era (by omega)
  have hlength : doy < Civil.yearLength (yoe + 400 * era + 1) := by
    have hsucc := Civil.daysBeforeMarch_succ (yoe + 400 * era)
    clear hyoe hdoy hera hdoe
    omega
  have hlast : doy ≤ 365 := by
    have := Civil.yearLength_le (yoe + 400 * era + 1)
    clear hyoe hdoy hera hdoe
    omega
  obtain ⟨d, hyear', hmonth, hdate, hnumber⟩ := Civil.exists_date hlength rfl rfl
  have hstart : i64 (asI64 days + 719468) = some (146097 * era + doe : ℤ) := by
    clear hyoe hdoy
    rw [asI64_eq (by omega) (by omega), i64_eq (by omega) (by omega)]
    exact congrArg some (by omega)
  have hmonthAndDay : monthAndDay doy = some ((d.month : ℤ), (d.day : ℤ)) := by rw [monthAndDay_cast hlast rfl, hmonth, hdate]
  have hcalendar : calendarYear ((yoe + 400 * era : ℕ) : ℤ) d.month = some (d.year : ℤ) := by
    rw [calendarYear_eq (by clear hyoe hdoy; omega), hyear', hmonth]
  refine ⟨d, by clear hyoe hdoy; omega, ?_, fun tod htod => ?_⟩
  · unfold civilFromDays
    simp only [Option.bind_eq_bind]
    rw [hstart, Option.bind_some, eraOf_eq hdoe', Option.bind_some, dayOfEra_eq hdoe' hera', Option.bind_some, hyear,
      Option.bind_some, marchYear_eq hyears hera', Option.bind_some, hday, Option.bind_some, hmonthAndDay, Option.bind_some, hcalendar,
      Option.bind_some]
    rfl
  · have hdays : (86400 * days + tod) / 86400 = days := by clear hyoe hdoy hera hdoe; omega
    have htod' : (86400 * days + tod) % 86400 = tod := by clear hyoe hdoy hera hdoe; omega
    unfold Session.formatUtcCompact
    simp only [hdays, htod', ← hera, ← hdoe, ← hyoe, ← hdoy, ← hmonth, ← hdate]
    have hyears' : (if d.month ≤ 2 then yoe + era * 400 + 1 else yoe + era * 400) = d.year := by
      rw [hyear', ← hmonth, Nat.mul_comm era 400]
    rw [hyears']
    rfl

end Range

/-! ### The order of the texts -/

section Order

variable {a b m : Civil.Moment} {t : ℕ}

theorem stamp_eq (m : Civil.Moment) : stamp m = stampOf m.date (3600 * m.hour + 60 * m.minute + m.second) := by
  have hm := m.minuteValid
  have hs := m.secondValid
  unfold stamp stampOf
  rw [show (3600 * m.hour + 60 * m.minute + m.second) / 3600 = m.hour by omega,
    show (3600 * m.hour + 60 * m.minute + m.second) % 3600 / 60 = m.minute by omega,
    show (3600 * m.hour + 60 * m.minute + m.second) % 60 = m.second by omega]

/-- A date in front decides, or what follows it does. -/
theorem stamp_lt_of_before (h : a.Before b) (ha : a.date.year ≤ 9999) (hb : b.date.year ≤ 9999) : stamp a < stamp b := by
  have hmonth := a.date.monthValid
  have hmonth' := b.date.monthValid
  have hday := a.date.day_le
  have hday' := b.date.day_le
  have hhour := a.hourValid
  have hhour' := b.hourValid
  have hminute := a.minuteValid
  have hminute' := b.minuteValid
  have hsecond := a.secondValid
  have hsecond' := b.secondValid
  unfold stamp
  simp only [List.append_assoc]
  rw [Text.numeral_append_lt_iff (by omega) (by omega) (by omega), Text.numeral_append_lt_iff (by omega) (by omega) (by omega),
    Text.numeral_append_lt_iff (by omega) (by omega) (by omega), List.cons_lt_cons_iff,
    Text.numeral_append_lt_iff (by omega) (by omega) (by omega), Text.numeral_append_lt_iff (by omega) (by omega) (by omega),
    Text.numeral_lt_iff (by omega) (by omega) (by omega)]
  rcases h with (hyear | ⟨hyear, hrest⟩) | ⟨hdate, hrest⟩
  · exact .inl hyear
  · exact .inr ⟨hyear, hrest.imp_right fun h => ⟨h.1, .inl h.2⟩⟩
  · rw [hdate]
    exact .inr ⟨rfl, .inr ⟨rfl, .inr ⟨rfl, .inr ⟨rfl, hrest⟩⟩⟩⟩

theorem length_stamp (h : m.date.year ≤ 9999) : (stamp m).length = 15 := by
  have hmonth := m.date.monthValid
  have hday := m.date.day_le
  have hhour := m.hourValid
  have hminute := m.minuteValid
  have hsecond := m.secondValid
  unfold stamp
  simp only [List.length_append, List.length_cons]
  rw [Text.length_numeral (by omega) (by omega), Text.length_numeral (by omega) (by omega), Text.length_numeral (by omega) (by omega),
    Text.length_numeral (by omega) (by omega), Text.length_numeral (by omega) (by omega), Text.length_numeral (by omega) (by omega)]

/-- Texts of one length have their files in their order. -/
theorem sessionName_lt {s s' : List Char} (h : s < s') (hlength : s.length = s'.length) :
    Session.sessionName s < Session.sessionName s' := by
  rw [String.lt_iff, Session.toList_sessionName, Session.toList_sessionName,
    Text.append_lt_append_iff Char.lt_irrefl (by rw [List.length_append, List.length_append, hlength]),
    Text.append_lt_append_iff Char.lt_irrefl rfl]
  exact .inl (.inr ⟨rfl, h⟩)

theorem seconds_epoch : epoch.seconds = 86400 * 719528 := by
  unfold epoch Civil.Moment.seconds Civil.Date.number
  dsimp only
  rw [Civil.daysBeforeYear_eq]
  rfl

theorem endOf9999_eq : endOf9999 = 86400 * 2932897 := by
  rw [endOf9999, Civil.daysBeforeYear_eq, seconds_epoch]

/-- A moment before the end of 9999 has a year of four digits. -/
theorem year_le (h : m.seconds = epoch.seconds + t) (ht : t < endOf9999) : m.date.year ≤ 9999 := by
  rw [seconds_epoch] at h
  rw [endOf9999_eq] at ht
  by_contra hlate
  have hyears : Civil.daysBeforeYear 10000 ≤ Civil.daysBeforeYear m.date.year := Civil.monotone_daysBeforeYear (by omega)
  have hnumber : Civil.daysBeforeYear m.date.year ≤ m.date.number := by
    unfold Civil.Date.number
    omega
  rw [Civil.daysBeforeYear_eq 10000] at hyears
  unfold Civil.Moment.seconds at h
  omega

/-- **The text of a time** is that of its moment in UTC. -/
theorem formatUtcCompact_eq (ht : t < endOf9999) : ∃ m : Civil.Moment, m.seconds = epoch.seconds + t ∧
    formatUtcCompact t = some (String.ofList (stamp m)) ∧ Session.formatUtcCompact t = stamp m := by
  rw [endOf9999_eq] at ht
  have hdays : t / 86400 ≤ 2932896 := by omega
  obtain ⟨d, hnumber, hdate, hsession⟩ := civilFromDays_date hdays
  have htod : t % 86400 < 86400 := by omega
  have hmoment : stamp (.ofDay d (t % 86400) htod) = stampOf d (t % 86400) := rfl
  refine ⟨.ofDay d (t % 86400) htod, ?_, ?_, ?_⟩
  · rw [Civil.Moment.seconds_ofDay, seconds_epoch]
    omega
  · have hdays : (t : ℤ) / 86400 = (t / 86400 : ℕ) := rfl
    rw [hmoment, formatUtcCompact]
    simp only [Option.bind_eq_bind]
    rw [hdays, hdate]
    rfl
  · rw [hmoment, ← hsession _ htod, Nat.div_add_mod]

/-- **Session files come in the order of their times**: the text of a time is that of its one moment in UTC, no
operation on the way overflows, and a later time has a later text and its file a later name. -/
theorem timestamps_ordered :
    (∀ t : ℕ, t < endOf9999 → ∃ m : Civil.Moment, m.seconds = epoch.seconds + t ∧ (∀ n : Civil.Moment, n.seconds = epoch.seconds + t → n = m) ∧
      formatUtcCompact t = some (String.ofList (stamp m))) ∧
    ∀ a b : ℕ, a < b → b < endOf9999 → ∃ s s' : String, formatUtcCompact a = some s ∧ formatUtcCompact b = some s' ∧ s < s' ∧
      Session.sessionName s.toList < Session.sessionName s'.toList := by
  constructor
  · intro t ht
    obtain ⟨m, hm, htext, -⟩ := formatUtcCompact_eq ht
    exact ⟨m, hm, fun n hn => Civil.Moment.seconds_injective (hn.trans hm.symm), htext⟩
  · intro a b hab hb
    obtain ⟨m, hm, htext, -⟩ := formatUtcCompact_eq (hab.trans hb)
    obtain ⟨n, hn, htext', -⟩ := formatUtcCompact_eq hb
    have hlt : stamp m < stamp n :=
      stamp_lt_of_before (Civil.Moment.before_of_seconds_lt (by omega)) (year_le hm (hab.trans hb)) (year_le hn hb)
    refine ⟨_, _, htext, htext', ?_, ?_⟩
    · rw [String.lt_iff, String.toList_ofList, String.toList_ofList]
      exact hlt
    · rw [String.toList_ofList, String.toList_ofList]
      exact sessionName_lt hlt (by rw [length_stamp (year_le hm (hab.trans hb)), length_stamp (year_le hn hb)])

/-- The leap day of 2000, and the second after it. -/
theorem timestamps_ordered_leapDay :
    (∃ m : Civil.Moment, m.seconds = epoch.seconds + 951868799 ∧ (∀ n : Civil.Moment, n.seconds = epoch.seconds + 951868799 → n = m) ∧
      formatUtcCompact 951868799 = some (String.ofList (stamp m))) ∧
    ∃ s s' : String, formatUtcCompact 951868799 = some s ∧ formatUtcCompact 951868800 = some s' ∧ s < s' ∧
      Session.sessionName s.toList < Session.sessionName s'.toList :=
  ⟨timestamps_ordered.1 951868799 (by rw [endOf9999_eq]; decide),
    timestamps_ordered.2 951868799 951868800 (by decide) (by rw [endOf9999_eq]; decide)⟩

example : formatUtcCompact 951868799 = some "20000229_235959" := by decide +kernel

end Order

end Timestamps
end LocaiLink

import Connections.Library.CivilDate
import Mathlib.Data.Option.Basic

/-!
# The next Pacific midnight

A hold of a Google model lifts at the next midnight of Los Angeles.  The answer is settled from two
samples of the zone's offset, at the midnight as if the zone were UTC and at the first answer; both
fall in the afternoon and evening before the midnight, where the clocks never change.
-/

namespace Connections

open Calendar

/-- The milliseconds of an hour. -/
def msPerHour : ℤ := 3600000

/-- The milliseconds of a day. -/
def msPerDay : ℤ := 86400000

/-! ### Dates of the host

A number that may be `NaN`, and the time value of a `Date` that may be invalid, are `none` then. -/

/-- The last time value that a date can hold. -/
def maxTime : ℤ := 8640000000000000

/-- The day that the last time value is the midnight of, in UTC. -/
def lastDay : ℤ := maxTime / msPerDay

/-- A time value out of range makes an invalid date. -/
def timeClip (time : ℤ) : Option ℤ := if -maxTime ≤ time ∧ time ≤ maxTime then some time else none

/-- A date made from a number. -/
def newDate (value : Option ℤ) : Option ℤ := value.bind timeClip

/-- A difference of numbers. -/
def minus (a b : Option ℤ) : Option ℤ := a.bind fun a => b.map (a - ·)

/-- `Date.UTC`: the month is counted from zero, and a month or day out of range carries over. -/
def dateUTC (year month day : Option ℤ) (hour minute second : ℤ) : Option ℤ := do
  let year ← year
  let month ← month
  let day ← day
  let fullYear := if 0 ≤ year ∧ year ≤ 99 then 1900 + year else year
  let days := dayFromYear (fullYear + month / 12) +
    monthStart (fullYear + month / 12) (month % 12).toNat + (day - 1)
  timeClip (days * msPerDay + hour * msPerHour + minute * 60000 + second * 1000)

/-- The date in UTC, `getUTCFullYear` and its siblings. -/
def utcDate (date : Option ℤ) : Option CivilDate :=
  date.map fun time => .ofDayNumber (time / msPerDay)

/-! ### The zone -/

/-- What is assumed of the zone: its offset is always one of two, and it changes at two o'clock on
the clocks that run then. -/
structure PacificZone where
  offset : ℤ → ℤ
  offset_eq : ∀ t, offset t = -8 * msPerHour ∨ offset t = -7 * msPerHour
  changes : ∀ t, offset t ≠ offset (t - 1) → (t + offset (t - 1)) % msPerDay = 2 * msPerHour

/-- A reading of the clock. -/
structure DateParts where
  year : ℤ
  month : ℤ
  day : ℤ
  hour : ℤ
  minute : ℤ
  second : ℤ
  deriving DecidableEq, Repr

/-- The reading on a date, some milliseconds into it. -/
def partsOf (date : CivilDate) (time : ℤ) : DateParts :=
  ⟨date.year, date.month + 1, date.day, time / msPerHour, time / 60000 % 60, time / 1000 % 60⟩

namespace PacificZone

variable (zone : PacificZone)

/-- The day of the zone that an instant falls on. -/
def localDay (t : ℤ) : ℤ := (t + zone.offset t) / msPerDay

/-- The date of the zone that an instant falls on. -/
def localDate (t : ℤ) : CivilDate := .ofDayNumber (zone.localDay t)

/-- The midnight that a day of the zone begins with, by the offset of the afternoon before. -/
def midnight (day : ℤ) : ℤ := day * msPerDay - zone.offset (day * msPerDay)

end PacificZone

section Midnight

variable (zone : PacificZone)

/-- The clock of the zone at a date; an invalid one is no time value to format. -/
def pacificParts (date : Option ℤ) : Except String DateParts :=
  match date with
  | some t => .ok (partsOf (zone.localDate t) ((t + zone.offset t) % msPerDay))
  | none => .error "Invalid time value"

/-- The offset of the zone at an instant, read off its clock. -/
def pacificOffsetMsAt (instantMs : Option ℤ) : Except String (Option ℤ) := do
  let p ← pacificParts zone (newDate instantMs)
  return minus (dateUTC (some p.year) (some (p.month - 1)) (some p.day) p.hour p.minute p.second)
    instantMs

/-- The instant of midnight on a date of the zone, from two samples of the offset. -/
def pacificMidnightToUtc (year month day : Option ℤ) : Except String (Option ℤ) := do
  let naive := dateUTC year (month.map (· - 1)) day 0 0 0
  let firstPass := minus naive (← pacificOffsetMsAt zone naive)
  return newDate (minus naive (← pacificOffsetMsAt zone firstPass))

/-- The next midnight of the zone. -/
def nextPacificMidnight (now : Option ℤ) : Except String (Option ℤ) := do
  let p ← pacificParts zone now
  let today := dateUTC (some p.year) (some (p.month - 1)) (some p.day) 0 0 0
  let tomorrow := utcDate (newDate (today.map (· + msPerDay)))
  pacificMidnightToUtc zone (tomorrow.map (·.year)) (tomorrow.map fun date => (date.month : ℤ) + 1)
    (tomorrow.map (·.day))

end Midnight

/-! ### Samples of the offset -/

/-- Every day from the eve of 1970 on is in a year of four digits or more. -/
theorem year_ofDayNumber {n : ℤ} (hn : -1 ≤ n) : 1969 ≤ (CivilDate.ofDayNumber n).year := by
  have hlt : n < dayFromYear (yearFromDay n + 1) := (yearFromDay_spec n).2
  by_contra hless
  have hends := dayFromYear_le (Int.not_le.mp hless)
  have heve : dayFromYear 1969 = -365 := rfl
  change dayFromYear (yearFromDay n + 1) ≤ _ at hends
  omega

/-- `Date.UTC` counts the days up to a date. -/
theorem dateUTC_ofDayNumber {n : ℤ} (hn : -1 ≤ n) (hour minute second : ℤ) :
    dateUTC (some (CivilDate.ofDayNumber n).year) (some ((CivilDate.ofDayNumber n).month : ℕ))
      (some (CivilDate.ofDayNumber n).day) hour minute second =
        timeClip (n * msPerDay + hour * msPerHour + minute * 60000 + second * 1000) := by
  have hyear := year_ofDayNumber hn
  have hnumber := CivilDate.dayNumber_ofDayNumber n
  generalize CivilDate.ofDayNumber n = date at hyear hnumber
  have hmonth := date.month.isLt
  have hcarry : ((date.month : ℕ) : ℤ) / 12 = 0 := by omega
  have hin : (((date.month : ℕ) : ℤ) % 12).toNat = date.month := by omega
  rw [← hnumber]
  simp only [dateUTC, Option.bind_eq_bind, Option.bind_some, hcarry, hin, Int.add_zero]
  rw [if_neg (by omega)]
  rfl

theorem timeClip_eq {time : ℤ} (hfirst : -maxTime ≤ time) (hlast : time ≤ maxTime) :
    timeClip time = some time := if_pos ⟨hfirst, hlast⟩

namespace PacificZone

variable (zone : PacificZone)

/-- At a whole second the offset is read off the clock exactly. -/
theorem pacificOffsetMsAt_eq {t : ℤ} (hepoch : 0 ≤ t) (hlast : t ≤ maxTime)
    (hwhole : t % 1000 = 0) : pacificOffsetMsAt zone (some t) = .ok (some (zone.offset t)) := by
  have hoffset := zone.offset_eq t
  have hday : -1 ≤ zone.localDay t := by
    simp only [localDay, msPerDay, msPerHour] at hoffset ⊢
    omega
  have hclip : newDate (some t) = some t := by
    refine timeClip_eq ?_ hlast
    simp only [maxTime]
    omega
  simp only [pacificOffsetMsAt, hclip, pacificParts, partsOf, localDate, bind, Except.bind, pure,
    Except.pure, Int.add_sub_cancel, dateUTC_ofDayNumber hday]
  have htime : zone.localDay t * msPerDay + (t + zone.offset t) % msPerDay / msPerHour * msPerHour +
      (t + zone.offset t) % msPerDay / 60000 % 60 * 60000 +
        (t + zone.offset t) % msPerDay / 1000 % 60 * 1000 = t + zone.offset t := by
    simp only [localDay, msPerDay, msPerHour] at hoffset ⊢
    omega
  rw [htime, timeClip_eq ?_ ?_]
  · simp only [minus, Option.bind_some, Option.map_some]
    congr 2
    omega
  · simp only [maxTime, msPerHour] at hoffset ⊢
    omega
  · simp only [maxTime, msPerHour] at hoffset hlast ⊢
    omega

/-! ### The clocks between two changes -/

/-- From two o'clock on the clocks of the zone do not change before two o'clock of the next day. -/
theorem offset_eq_of_le (day : ℤ) {a b : ℤ} (hab : a ≤ b)
    (hfirst : day * msPerDay + 2 * msPerHour ≤ a + zone.offset a)
    (hlast : b + zone.offset a < (day + 1) * msPerDay + 2 * msPerHour) :
    zone.offset b = zone.offset a := by
  induction b, hab using Int.leInduction with
  | base => rfl
  | succ b hab ih =>
    have hbefore := ih (by omega)
    by_contra hchange
    have hat := zone.changes (b + 1) (by rwa [Int.add_sub_cancel, hbefore])
    rw [Int.add_sub_cancel, hbefore] at hat
    simp only [msPerDay, msPerHour] at hfirst hlast hat
    omega

/-- Between the two samples of the offset the clocks do not change. -/
theorem offset_midnight (day : ℤ) : zone.offset (zone.midnight day) =
    zone.offset (day * msPerDay) := by
  have hoffset := zone.offset_eq (day * msPerDay)
  apply zone.offset_eq_of_le (day - 1)
  · simp only [midnight, msPerHour] at hoffset ⊢
    omega
  · simp only [msPerHour, msPerDay] at hoffset ⊢
    omega
  · simp only [midnight, msPerHour, msPerDay]
    omega

/-- A midnight is read as one. -/
theorem localDay_midnight (day : ℤ) : zone.midnight day + zone.offset (zone.midnight day) =
    day * msPerDay := by
  rw [offset_midnight, midnight, Int.sub_add_cancel]

/-- Midnight on a date of the zone is found. -/
theorem pacificMidnightToUtc_eq {day : ℤ} (hepoch : 0 ≤ day) (hlast : day < lastDay) :
    pacificMidnightToUtc zone (some (CivilDate.ofDayNumber day).year)
      (some (((CivilDate.ofDayNumber day).month : ℕ) + 1))
      (some ((CivilDate.ofDayNumber day).day : ℕ)) = .ok (some (zone.midnight day)) := by
  have hoffset := zone.offset_eq (day * msPerDay)
  have hnaiveRange : 0 ≤ day * msPerDay ∧ day * msPerDay ≤ maxTime ∧
      day * msPerDay % 1000 = 0 := by
    simp only [lastDay, maxTime, msPerDay] at hlast ⊢
    omega
  have hmidnightRange : 0 ≤ zone.midnight day ∧ zone.midnight day ≤ maxTime ∧
      zone.midnight day % 1000 = 0 := by
    simp only [midnight, lastDay, maxTime, msPerDay, msPerHour] at hoffset hlast ⊢
    omega
  have hnaive : dateUTC (some (CivilDate.ofDayNumber day).year)
      (some ((CivilDate.ofDayNumber day).month : ℕ)) (some (CivilDate.ofDayNumber day).day) 0 0 0 =
        some (day * msPerDay) := by
    rw [dateUTC_ofDayNumber (by omega), Int.zero_mul, Int.zero_mul, Int.zero_mul, Int.add_zero,
      Int.add_zero, Int.add_zero]
    exact timeClip_eq (by simp only [maxTime]; omega) hnaiveRange.2.1
  have hsample := zone.pacificOffsetMsAt_eq hnaiveRange.1 hnaiveRange.2.1 hnaiveRange.2.2
  have hfirst := zone.pacificOffsetMsAt_eq hmidnightRange.1 hmidnightRange.2.1 hmidnightRange.2.2
  have hpass : minus (some (day * msPerDay)) (some (zone.offset (day * msPerDay))) =
      some (zone.midnight day) := rfl
  have hclip : newDate (some (zone.midnight day)) = some (zone.midnight day) :=
    timeClip_eq (by simp only [maxTime]; omega) hmidnightRange.2.1
  simp only [pacificMidnightToUtc, Option.map_some, Int.add_sub_cancel, hnaive, hsample, bind,
    Except.bind, pure, Except.pure, hpass, hfirst, offset_midnight, hclip]

/-- The day of an instant from 1970 on is at the earliest the eve of 1970. -/
theorem localDay_ge {now : ℤ} (hepoch : 0 ≤ now) : -1 ≤ zone.localDay now := by
  have hoffset := zone.offset_eq now
  simp only [localDay, msPerDay, msPerHour] at hoffset ⊢
  omega

/-- The next midnight is the one that the next day begins with. -/
theorem nextPacificMidnight_eq {now : ℤ} (hepoch : 0 ≤ now)
    (hlast : zone.localDay now + 1 ≤ lastDay) :
    nextPacificMidnight zone (some now) = pacificMidnightToUtc zone
      (some (CivilDate.ofDayNumber (zone.localDay now + 1)).year)
      (some (((CivilDate.ofDayNumber (zone.localDay now + 1)).month : ℕ) + 1))
      (some ((CivilDate.ofDayNumber (zone.localDay now + 1)).day : ℕ)) := by
  have hday := zone.localDay_ge hepoch
  have htoday : dateUTC (some (zone.localDate now).year) (some ((zone.localDate now).month : ℕ))
      (some (zone.localDate now).day) 0 0 0 = some (zone.localDay now * msPerDay) := by
    rw [localDate, dateUTC_ofDayNumber hday, Int.zero_mul, Int.zero_mul, Int.zero_mul,
      Int.add_zero, Int.add_zero, Int.add_zero]
    refine timeClip_eq ?_ ?_ <;> simp only [lastDay, maxTime, msPerDay] at hlast ⊢ <;> omega
  have htomorrow : newDate (some (zone.localDay now * msPerDay + msPerDay)) =
      some ((zone.localDay now + 1) * msPerDay) := by
    rw [newDate, Option.bind_some, Int.add_mul, Int.one_mul]
    refine timeClip_eq ?_ ?_ <;> simp only [lastDay, maxTime, msPerDay] at hlast ⊢ <;> omega
  have hdate : (zone.localDay now + 1) * msPerDay / msPerDay = zone.localDay now + 1 :=
    Int.mul_ediv_cancel _ (by decide)
  simp only [nextPacificMidnight, pacificParts, bind, Except.bind, partsOf, Int.add_sub_cancel,
    htoday, Option.map_some, htomorrow, utcDate, hdate]

/-- Behind the last day that a date can begin there is no midnight to sample the offset at. -/
theorem nextPacificMidnight_throws {now : ℤ} (hepoch : 0 ≤ now)
    (hlast : zone.localDay now + 1 = lastDay) :
    nextPacificMidnight zone (some now) = .error "Invalid time value" := by
  have hoffset := zone.offset_eq maxTime
  have hmax : lastDay * msPerDay = maxTime := rfl
  have hnaive : dateUTC (some (CivilDate.ofDayNumber lastDay).year)
      (some ((CivilDate.ofDayNumber lastDay).month : ℕ))
      (some (CivilDate.ofDayNumber lastDay).day) 0 0 0 = some maxTime := by
    rw [dateUTC_ofDayNumber (by decide), Int.zero_mul, Int.zero_mul, Int.zero_mul, Int.add_zero,
      Int.add_zero, Int.add_zero, hmax]
    rfl
  have hsample := zone.pacificOffsetMsAt_eq (t := maxTime) (by decide) (Int.le_refl _) (by decide)
  have hfirst : minus (some maxTime) (some (zone.offset maxTime)) =
      some (maxTime - zone.offset maxTime) := rfl
  have hclip : newDate (some (maxTime - zone.offset maxTime)) = none := by
    refine if_neg ?_
    simp only [msPerHour] at hoffset
    omega
  have hthrows : pacificOffsetMsAt zone (some (maxTime - zone.offset maxTime)) =
      .error "Invalid time value" := by
    simp only [pacificOffsetMsAt, hclip, pacificParts, bind, Except.bind]
  rw [zone.nextPacificMidnight_eq hepoch (Int.le_of_eq hlast), hlast]
  simp only [pacificMidnightToUtc, Option.map_some, Int.add_sub_cancel, hnaive, hsample, bind,
    Except.bind, hfirst, hthrows]

/-- The next midnight comes within twenty-five hours, and strictly later. -/
theorem midnight_bounds (now : ℤ) : now < zone.midnight (zone.localDay now + 1) ∧
    zone.midnight (zone.localDay now + 1) ≤ now + 25 * msPerHour := by
  set day := zone.localDay now + 1 with hday
  have hread := zone.localDay_midnight day
  have hoffset := zone.offset_eq now
  have hoffset' := zone.offset_eq (zone.midnight day)
  have hfloor : (day - 1) * msPerDay ≤ now + zone.offset now ∧
      now + zone.offset now < day * msPerDay := by
    simp only [hday, localDay, msPerDay]
    omega
  constructor
  · -- Were the midnight not later, the clocks would have changed behind it.
    by_contra hlate
    have hsame := zone.offset_eq_of_le (day - 1) (Int.not_lt.mp hlate)
      (by simp only [hread, msPerDay, msPerHour]; omega)
      (by simp only [msPerDay, msPerHour] at hoffset hoffset' hfloor ⊢; omega)
    omega
  · simp only [msPerDay, msPerHour] at hoffset hoffset' hfloor hread ⊢
    omega

end PacificZone

/-- The next midnight, as long as a date can hold it: it is strictly later than the instant, at most
twenty-five hours later, and read as midnight on the date behind the instant's. -/
theorem nextPacificMidnight_spec (zone : PacificZone) (now : ℤ) (hepoch : 0 ≤ now)
    (hlast : zone.localDay now + 1 < lastDay) :
    ∃ midnight, nextPacificMidnight zone (some now) = .ok (some midnight) ∧ now < midnight ∧
      midnight ≤ now + 25 * msPerHour ∧
        let date := (zone.localDate now).next
        pacificParts zone (some midnight) =
          .ok ⟨date.year, date.month + 1, date.day, 0, 0, 0⟩ := by
  obtain ⟨hlater, hwithin⟩ := zone.midnight_bounds now
  have hday := zone.localDay_ge hepoch
  refine ⟨zone.midnight (zone.localDay now + 1), ?_, hlater, hwithin, ?_⟩
  · rw [zone.nextPacificMidnight_eq hepoch (Int.le_of_lt hlast)]
    exact zone.pacificMidnightToUtc_eq (by omega) hlast
  · have hread := zone.localDay_midnight (zone.localDay now + 1)
    have hdate : zone.localDate (zone.midnight (zone.localDay now + 1)) =
        (zone.localDate now).next := by
      rw [PacificZone.localDate, PacificZone.localDay, hread, Int.mul_ediv_cancel _ (by decide)]
      exact CivilDate.ofDayNumber_succ _
    have htime : (zone.localDay now + 1) * msPerDay % msPerDay = 0 := Int.mul_emod_left _ _
    simp only [pacificParts, hdate, hread, htime]
    rfl

/-- The zone around its change to daylight time in March 2026. -/
def springForward : PacificZone where
  offset t := if t < 1772964000000 then -8 * msPerHour else -7 * msPerHour
  offset_eq t := by
    split
    · exact .inl rfl
    · exact .inr rfl
  changes t h := by
    have hchange : t = 1772964000000 := by
      by_contra hne
      refine h ?_
      by_cases hbefore : t < 1772964000000
      · rw [if_pos hbefore, if_pos (by omega)]
      · rw [if_neg hbefore, if_neg (by omega)]
    rw [hchange]
    decide

/-- On the day of the change, an hour before it, the next midnight is twenty-two hours away. -/
theorem nextPacificMidnight_spring_forward :
    ∃ midnight, nextPacificMidnight springForward (some 1772960400000) = .ok (some midnight) ∧
      1772960400000 < midnight ∧ midnight ≤ 1772960400000 + 25 * msPerHour ∧
        let date := (springForward.localDate 1772960400000).next
        pacificParts springForward (some midnight) =
          .ok ⟨date.year, date.month + 1, date.day, 0, 0, 0⟩ :=
  nextPacificMidnight_spec springForward 1772960400000 (by decide) (by decide)

example : nextPacificMidnight springForward (some 1772960400000) = .ok (some 1773039600000) := by
  decide

/-- At the last instant that a date can hold, the next midnight is out of range and the sample of
its offset throws. -/
theorem nextPacificMidnight_end_of_time :
    timeClip maxTime = some maxTime ∧
      nextPacificMidnight springForward (some maxTime) = .error "Invalid time value" :=
  ⟨by decide, springForward.nextPacificMidnight_throws (by decide) (by decide)⟩

end Connections

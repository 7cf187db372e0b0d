import Connections.Holds.PacificMidnight
import Connections.Library.Run
import Connections.Library.TimeZone
import Mathlib

/-!
# The puzzle ingestion

The ingestion asks for one day after the other, from the day after the latest stored one, until a
day has no puzzle yet.  It counts the days on the clock of the host, while the date it begins with
on an empty table is a midnight of UTC.
-/

namespace Connections

open Calendar Clock

/-- The date of the first puzzle. -/
def nytConnectionsOriginDate : CivilDate := ⟨2023, ⟨5, by decide⟩, 12, by decide, by decide⟩

/-! ### Dates of the host -/

/-- A date made from the text of a date alone is midnight in UTC. -/
def dateOfText (date : CivilDate) : Option ℤ := timeClip (date.dayNumber * msPerDay)

/-- A stored date as the database driver returns it, local midnight. -/
def dateOfDriver (zone : TimeZone) (date : CivilDate) : Option ℤ :=
  timeClip (zone.utc (date.dayNumber * msPerDay))

/-- The date that the clock of the host shows, `getFullYear` and its siblings. -/
def hostDate (zone : TimeZone) (time : ℤ) : CivilDate :=
  .ofDayNumber (zone.localTime time / msPerDay)

/-- `setDate`: a day out of the month carries over, and the time of the day stays. -/
def setDate (zone : TimeZone) (time day : ℤ) : Option ℤ :=
  let date := hostDate zone time
  let days := dayFromYear date.year + monthStart date.year date.month + (day - 1)
  timeClip (zone.utc (days * msPerDay + zone.localTime time % msPerDay))

/-- `padStart` with zeros. -/
def padStart (text : String) (width : ℕ) : String :=
  String.ofList (List.replicate (width - text.length) '0') ++ text

/-- The text of a date. -/
def dateText (date : CivilDate) : String :=
  toString date.year ++ "-" ++ padStart (toString ((date.month : ℕ) + 1)) 2 ++ "-" ++
    padStart (toString date.day) 2

example : dateText nytConnectionsOriginDate = "2023-06-12" := by decide

/-! ### The ingestion -/

/-- What became of the day that was asked for. -/
inductive DayOutcome
  /-- No puzzle is published for it yet. -/
  | noPuzzle
  | inserted
  /-- A puzzle of that date is stored already. -/
  | existed
  /-- Loading or inserting the puzzle threw. -/
  | failed
  deriving DecidableEq, Repr

/-- How far the ingestion has come. -/
inductive IngestionPhase
  | asking
  | caughtUp (inserted : ℕ) (upToDate : String)
  | threw
  deriving DecidableEq, Repr

/-- The loop of the ingestion, with the dates it has asked for. -/
structure Ingestion where
  latestDate : Option ℤ
  inserted : ℕ
  asked : List String
  phase : IngestionPhase
  deriving DecidableEq, Repr

/-- The latest date of a table. -/
def latestStored (table : List CivilDate) : Option CivilDate :=
  (table.map (·.dayNumber)).max?.map .ofDayNumber

section Host

variable (zone : TimeZone)

/-- Some days later at the same time of the day. -/
def addDays (date : Option ℤ) (days : ℤ) : Option ℤ :=
  date.bind fun time => setDate zone time ((hostDate zone time).day + days)

/-- The parts of an invalid date are no numbers. -/
def formatDate : Option ℤ → String
  | some time => dateText (hostDate zone time)
  | none => "NaN-NaN-NaN"

/-- The latest stored date, or the eve of the first puzzle. -/
def getLatestDate (table : List CivilDate) : Option ℤ :=
  match latestStored table with
  | some date => dateOfDriver zone date
  | none => addDays zone (dateOfText nytConnectionsOriginDate) (-1)

/-- One pass of the loop. -/
def ingestStep (s : Ingestion) (outcome : DayOutcome) : Option Ingestion :=
  match s.phase with
  | .asking =>
    let nextDate := addDays zone s.latestDate 1
    let formatted := formatDate zone nextDate
    let asked := s.asked ++ [formatted]
    match outcome with
    | .noPuzzle =>
      some { s with asked := asked, phase := .caughtUp s.inserted (formatDate zone s.latestDate) }
    | .inserted =>
      some { s with latestDate := nextDate, inserted := s.inserted + 1, asked := asked }
    | .existed => some { s with latestDate := nextDate, asked := asked }
    | .failed => some { s with asked := asked, phase := .threw }
  | _ => none

/-- The ingestion before its first pass. -/
def Ingestion.start (table : List CivilDate) : Ingestion :=
  ⟨getLatestDate zone table, 0, [], .asking⟩

end Host

/-! ### Texts of dates -/

theorem padStart_injective {m n width : ℕ}
    (h : padStart (toString m) width = padStart (toString n) width) : m = n := by
  have hread : ∀ k, Nat.ofDigitChars 10 (padStart (toString k) width).toList 0 = k := by
    intro k
    have hdigits : (toString k).toList = Nat.toDigits 10 k := Nat.toList_repr
    rw [padStart, String.toList_append, String.toList_ofList, Nat.ofDigitChars_append,
      Nat.ofDigitChars_replicate_zero, Nat.mul_zero, hdigits, Nat.ofDigitChars_ten_toDigits]
  rw [← hread m, h, hread n]

theorem length_padStart {n : ℕ} (h : n < 100) :
    (padStart (toString n) 2).toList.length = 2 := by
  have hdigits : (toString n).toList = Nat.toDigits 10 n := Nat.toList_repr
  have hshort : (toString n).length ≤ 2 := by
    rw [← String.length_toList, hdigits]
    exact (Nat.length_toDigits_le_iff (by decide) (by decide)).mpr h
  rw [padStart, String.toList_append, String.toList_ofList, List.length_append,
    List.length_replicate, String.length_toList]
  omega

/-- The month and the day of a date take five characters. -/
theorem toList_dateText (date : CivilDate) : ∃ month day : List Char,
    month = (padStart (toString ((date.month : ℕ) + 1)) 2).toList ∧
      day = (padStart (toString date.day) 2).toList ∧ month.length = 2 ∧ day.length = 2 ∧
        (dateText date).toList = (toString date.year).toList ++ '-' :: (month ++ '-' :: day) := by
  have hmonth := date.month.isLt
  have hday : date.day ≤ 31 := date.day_le.trans (daysInMonth_bounds _ _).2
  refine ⟨_, _, rfl, rfl, length_padStart (by omega), length_padStart (by omega), ?_⟩
  simp [dateText]

theorem dateText_injective {date other : CivilDate} (h : dateText date = dateText other) :
    date = other := by
  obtain ⟨month, day, hmonth, hday, hm, hd, htext⟩ := toList_dateText date
  obtain ⟨month', day', hmonth', hday', hm', hd', htext'⟩ := toList_dateText other
  have hchars := congrArg String.toList h
  rw [htext, htext'] at hchars
  obtain ⟨hyear, hrest⟩ := List.append_inj' hchars (by simp [hm, hd, hm', hd'])
  obtain ⟨hmonths, hdays⟩ := List.append_inj (List.cons.inj hrest).2 (hm.trans hm'.symm)
  rw [hmonth, hmonth'] at hmonths
  rw [hday, hday'] at hdays
  ext
  · exact Int.repr_inj.mp (String.toList_inj.mp hyear)
  · have hsame := padStart_injective (String.toList_inj.mp hmonths)
    omega
  · exact padStart_injective (String.toList_inj.mp (List.cons.inj hdays).2)

/-- The text of an invalid date is that of no date. -/
theorem dateText_ne_invalid (date : CivilDate) : dateText date ≠ "NaN-NaN-NaN" := by
  obtain ⟨month, day, -, -, hm, hd, htext⟩ := toList_dateText date
  intro h
  have hchars : (toString date.year).toList ++ '-' :: (month ++ '-' :: day) =
      "NaN-N".toList ++ 'a' :: "N-NaN".toList := by
    rw [← htext, h]
    rfl
  have hrest := (List.append_inj' hchars (by simp [hm, hd])).2
  exact absurd (List.cons.inj hrest).1 (by decide)

theorem formatDate_eq_iff {zone : TimeZone} {date : Option ℤ} {day : ℤ} :
    formatDate zone date = dateText (.ofDayNumber day) ↔
      ∃ time, date = some time ∧ zone.localTime time / msPerDay = day := by
  cases date with
  | none =>
    simp only [formatDate, reduceCtorEq, false_and, exists_false, iff_false]
    exact fun h => dateText_ne_invalid _ h.symm
  | some time =>
    simp only [formatDate, hostDate, Option.some.injEq, exists_eq_left']
    refine ⟨fun h => ?_, fun h => by rw [h]⟩
    have hdays := congrArg CivilDate.dayNumber (dateText_injective h)
    rwa [CivilDate.dayNumber_ofDayNumber, CivilDate.dayNumber_ofDayNumber] at hdays

/-! ### The days asked for -/

/-- The number of the first day to ask for. -/
def firstDay (table : List CivilDate) : ℤ :=
  match latestStored table with
  | some date => date.dayNumber + 1
  | none => nytConnectionsOriginDate.dayNumber

/-- The texts of consecutive days. -/
def datesFrom (day : ℤ) (count : ℕ) : List String :=
  (List.range count).map fun i : ℕ => dateText (.ofDayNumber (day + (i : ℤ)))

section Clock

variable (zone : TimeZone)

/-- The first midnight in UTC of the puzzles. -/
def originMidnight : ℤ := nytConnectionsOriginDate.dayNumber * msPerDay

/-- The local time that the ingestion sets its first date to. -/
def startReading (table : List CivilDate) : ℤ :=
  match latestStored table with
  | some date => date.dayNumber * msPerDay
  | none => zone.localTime originMidnight - msPerDay

/-- A date can hold the instant of a local time. -/
def InRange (reading : ℤ) : Prop := -maxTime ≤ zone.utc reading ∧ zone.utc reading ≤ maxTime

/-- For some days on, the clock never skips from this time of the day into another day. -/
def KeepsDays : ℤ → ℕ → Prop
  | _, 0 => True
  | reading, count + 1 =>
    InRange zone (reading + msPerDay) ∧
      zone.settle (reading + msPerDay) / msPerDay = reading / msPerDay + 1 ∧
        KeepsDays (zone.settle (reading + msPerDay)) count

/-- The day after the start is the first day to ask for, and from there on the clock keeps to the
days. -/
def AsksEachDay (table : List CivilDate) : ℕ → Prop
  | 0 => True
  | count + 1 =>
    let start := startReading zone table
    let first := zone.settle start + msPerDay
    InRange zone start ∧ InRange zone first ∧
      zone.settle first / msPerDay = firstDay table ∧ KeepsDays zone (zone.settle first) count

end Clock

section Asked

variable {zone : TimeZone} {table : List CivilDate}

theorem timeClip_utc_eq_some {reading time : ℤ} :
    timeClip (zone.utc reading) = some time ↔ InRange zone reading ∧ zone.utc reading = time := by
  unfold timeClip InRange
  split <;> simp_all

/-- Days are added on the clock. -/
theorem addDays_eq (time days : ℤ) :
    addDays zone (some time) days =
      timeClip (zone.utc (zone.localTime time + days * msPerDay)) := by
  have hday := CivilDate.dayNumber_ofDayNumber (zone.localTime time / msPerDay)
  have hreading : (zone.localTime time / msPerDay + days) * msPerDay +
      zone.localTime time % msPerDay = zone.localTime time + days * msPerDay := by
    rw [Int.add_mul]
    have hsplit := Int.ediv_mul_add_emod (zone.localTime time) msPerDay
    omega
  unfold CivilDate.dayNumber at hday
  rw [addDays, Option.bind_some, setDate, ← hreading, hostDate]
  congr 4
  omega

theorem getLatestDate_eq : getLatestDate zone table =
    timeClip (zone.utc (startReading zone table)) := by
  unfold getLatestDate startReading
  cases latestStored table with
  | some date => rfl
  | none =>
    have horigin : dateOfText nytConnectionsOriginDate = some originMidnight := by decide
    simp only [horigin, addDays_eq, Int.neg_mul, Int.one_mul, Int.sub_eq_add_neg]

/-- The dates asked for are those of the days that are added to the start, one by one. -/
structure Ingestion.Counts (zone : TimeZone) (table : List CivilDate) (s : Ingestion) : Prop where
  asked : s.asked = (List.range s.asked.length).map fun i =>
    formatDate zone ((addDays zone · 1)^[i + 1] (getLatestDate zone table))
  latestDate : s.phase = .asking →
    s.latestDate = (addDays zone · 1)^[s.asked.length] (getLatestDate zone table)

theorem Ingestion.Counts.step {s s' : Ingestion} {outcome : DayOutcome}
    (hs : s.Counts zone table) (hstep : ingestStep zone s outcome = some s') :
    s'.Counts zone table := by
  unfold ingestStep at hstep
  split at hstep
  · rename_i hasking
    have hnext : addDays zone s.latestDate 1 =
        (addDays zone · 1)^[s.asked.length + 1] (getLatestDate zone table) := by
      rw [Function.iterate_succ_apply', hs.latestDate hasking]
    have hmore : s.asked ++ [formatDate zone (addDays zone s.latestDate 1)] =
        (List.range (s.asked.length + 1)).map fun i =>
          formatDate zone ((addDays zone · 1)^[i + 1] (getLatestDate zone table)) := by
      rw [List.range_succ, List.map_append, ← hs.asked, hnext]
      rfl
    have hlength : (s.asked ++ [formatDate zone (addDays zone s.latestDate 1)]).length =
        s.asked.length + 1 := List.length_append
    cases outcome with
    | noPuzzle | failed =>
      cases hstep
      exact ⟨by rw [hlength, hmore], by simp⟩
    | inserted | existed =>
      cases hstep
      exact ⟨by rw [hlength, hmore], fun _ => by rw [hlength, hnext]⟩
  · cases hstep

theorem Ingestion.counts_of_reaches {s : Ingestion}
    (hrun : Run.Reaches (ingestStep zone) Run.always (Ingestion.start zone table) s) :
    s.Counts zone table :=
  hrun.invariant ⟨rfl, fun _ => rfl⟩ fun _ _ _ hs _ hstep => hs.step hstep

/-- The next day is added on the clock, once the host holds a local time. -/
theorem addDays_of_inRange {reading : ℤ} (h : InRange zone reading) :
    addDays zone (timeClip (zone.utc reading)) 1 =
      timeClip (zone.utc (zone.settle reading + msPerDay)) := by
  rw [timeClip_utc_eq_some.mpr ⟨h, rfl⟩, addDays_eq, Int.one_mul, TimeZone.settle]

/-- From a local time on, the days that are added follow a day just when the host holds the time on
that day and the clock keeps to the days from there on. -/
theorem addDays_iff_keepsDays (count : ℕ) (reading day : ℤ) :
    (∀ i < count + 1, ∃ time, (addDays zone · 1)^[i] (timeClip (zone.utc reading)) = some time ∧
      zone.localTime time / msPerDay = day + i) ↔
        InRange zone reading ∧ zone.settle reading / msPerDay = day ∧
          KeepsDays zone (zone.settle reading) count := by
  have hhere : (∃ time, timeClip (zone.utc reading) = some time ∧
      zone.localTime time / msPerDay = day) ↔
        InRange zone reading ∧ zone.settle reading / msPerDay = day := by
    simp only [timeClip_utc_eq_some, TimeZone.settle, and_assoc, exists_and_left, exists_eq_left']
  rw [Nat.forall_lt_succ_left, ← and_assoc (a := InRange zone reading), ← hhere]
  simp only [Function.iterate_zero_apply, Nat.cast_zero, Int.add_zero]
  refine and_congr_right fun hheld => ?_
  obtain ⟨hrange, hday⟩ := hhere.mp hheld
  cases count with
  | zero => simp [KeepsDays]
  | succ count =>
    rw [KeepsDays, hday, ← addDays_iff_keepsDays count]
    have hcarry : ∀ i : ℕ, day + ((i : ℤ) + 1) = day + 1 + i := fun i => by omega
    simp only [Function.iterate_succ_apply, addDays_of_inRange hrange, Nat.cast_add, Nat.cast_one,
      hcarry]

/-- The days added to the start are those to ask for just when the first one is and the clock keeps
to the days from there on. -/
theorem addDays_iff_asksEachDay (count : ℕ) :
    (∀ i < count, ∃ time,
      (addDays zone · 1)^[i + 1] (getLatestDate zone table) = some time ∧
        zone.localTime time / msPerDay = firstDay table + i) ↔ AsksEachDay zone table count := by
  cases count with
  | zero => simp [AsksEachDay]
  | succ count =>
    rw [AsksEachDay, getLatestDate_eq]
    simp only [Function.iterate_succ_apply]
    by_cases hstart : InRange zone (startReading zone table)
    · rw [addDays_of_inRange hstart, and_iff_right hstart, addDays_iff_keepsDays]
    · have hnone : timeClip (zone.utc (startReading zone table)) = none := if_neg hstart
      refine iff_of_false (fun hall => ?_) fun hall => hstart hall.1
      obtain ⟨time, htime, -⟩ := hall 0 (Nat.succ_pos count)
      rw [hnone] at htime
      cases htime

/-- The dates asked for, in any host's zone. -/
theorem asked_eq_datesFrom_iff {s : Ingestion}
    (hrun : Run.Reaches (ingestStep zone) Run.always (Ingestion.start zone table) s) :
    s.asked = datesFrom (firstDay table) s.asked.length ↔
      AsksEachDay zone table s.asked.length := by
  have hasked := (Ingestion.counts_of_reaches hrun).asked
  generalize s.asked.length = count at hasked ⊢
  rw [hasked, datesFrom, List.map_inj_left, ← addDays_iff_asksEachDay]
  simp only [List.mem_range, formatDate_eq_iff]

/-! ### Zones that skip within a day -/

/-- The host holds the local times of a day that is not at the end of its range. -/
theorem inRange_of_day (hoffset : ∀ t, |zone.offset t| < msPerDay) {reading : ℤ}
    (hfirst : -lastDay + 1 ≤ reading / msPerDay) (hlast : reading / msPerDay + 2 ≤ lastDay) :
    InRange zone reading := by
  obtain ⟨t, hutc⟩ := zone.exists_utc_eq reading
  have hbound := abs_lt.mp (hoffset t)
  simp only [InRange, lastDay, maxTime, msPerDay] at hbound hfirst hlast ⊢
  omega

/-- A clock that skips within a day keeps to the days. -/
theorem keepsDays_of_skipsWithin (hzone : zone.SkipsWithin msPerDay)
    (hoffset : ∀ t, |zone.offset t| < msPerDay) {count : ℕ} {reading : ℤ}
    (hfirst : -lastDay ≤ reading / msPerDay)
    (hlast : reading / msPerDay + count + 2 ≤ lastDay) : KeepsDays zone reading count := by
  induction count generalizing reading with
  | zero => trivial
  | succ count ih =>
    have hday : (reading + msPerDay) / msPerDay = reading / msPerDay + 1 :=
      Int.add_ediv_of_dvd_right (Int.dvd_refl _)
    have hsettle := TimeZone.settle_div (by decide) hzone (reading + msPerDay)
    rw [hday] at hsettle
    push_cast at hlast
    refine ⟨inRange_of_day hoffset ?_ ?_, hsettle, ih ?_ ?_⟩ <;> omega

/-- The start is on the eve of the first day, or on that of the day that the zone has at the first
midnight in UTC. -/
theorem startReading_div (hoffset : ∀ t, |zone.offset t| < msPerDay)
    (hfirst : -lastDay + 2 ≤ firstDay table) :
    -lastDay + 1 ≤ startReading zone table / msPerDay ∧
      startReading zone table / msPerDay < firstDay table ∧
        (startReading zone table / msPerDay + 1 = firstDay table ↔
          latestStored table ≠ none ∨ 0 ≤ zone.offset originMidnight) := by
  unfold startReading firstDay at *
  cases hlatest : latestStored table with
  | some date =>
    have hday : date.dayNumber * msPerDay / msPerDay = date.dayNumber :=
      Int.mul_ediv_cancel _ (by decide)
    simp only [hlatest, hday] at hfirst ⊢
    exact ⟨by omega, by omega, by simp⟩
  | none =>
    have hbound := abs_lt.mp (hoffset originMidnight)
    have horigin : nytConnectionsOriginDate.dayNumber = 19520 := by decide
    simp only [ne_eq, not_true_eq_false, false_or, TimeZone.localTime, originMidnight, horigin,
      lastDay, maxTime, msPerDay] at hbound ⊢
    refine ⟨by omega, by omega, ?_⟩
    omega

/-- In a zone that skips within a day, each day is asked for unless the table is empty and the zone
is west of UTC. -/
theorem asksEachDay_iff_of_skipsWithin (hzone : zone.SkipsWithin msPerDay)
    (hoffset : ∀ t, |zone.offset t| < msPerDay) {count : ℕ}
    (hfirst : -lastDay + 2 ≤ firstDay table) (hlast : firstDay table + count + 1 ≤ lastDay) :
    AsksEachDay zone table count ↔
      count = 0 ∨ latestStored table ≠ none ∨ 0 ≤ zone.offset originMidnight := by
  cases count with
  | zero => simp [AsksEachDay]
  | succ count =>
    obtain ⟨hlow, hhigh, hiff⟩ := startReading_div hoffset hfirst
    rw [AsksEachDay, ← hiff, or_iff_right (Nat.succ_ne_zero count)]
    set start := startReading zone table with hstart
    have hsettle := TimeZone.settle_div (by decide) hzone start
    have hday : (zone.settle start + msPerDay) / msPerDay = start / msPerDay + 1 := by
      rw [Int.add_ediv_of_dvd_right (Int.dvd_refl _), hsettle]
      rfl
    have hnext := TimeZone.settle_div (by decide) hzone (zone.settle start + msPerDay)
    rw [hday] at hnext
    push_cast at hlast
    rw [hnext, and_iff_right (inRange_of_day hoffset hlow (by omega)),
      and_iff_right (inRange_of_day hoffset (by omega) (by omega)), and_iff_left_iff_imp]
    intro _
    exact keepsDays_of_skipsWithin hzone hoffset (by omega) (by omega)

end Asked

/-! ### A whole ingestion -/

/-- A pass asks for one day, and the loop goes on behind a day with a puzzle only. -/
theorem ingestStep_spec {zone : TimeZone} {s s' : Ingestion} {outcome : DayOutcome}
    (hstep : ingestStep zone s outcome = some s') :
    s.phase = .asking ∧ s'.asked.length = s.asked.length + 1 ∧
      (s'.phase = .asking → outcome = .inserted ∨ outcome = .existed) := by
  unfold ingestStep at hstep
  split at hstep
  · rename_i hasking
    cases outcome <;> cases hstep <;> simp [hasking]
  · cases hstep

/-- The outcomes of an ingestion, one for each day asked for; only behind the last day can it have
stopped. -/
theorem outcomes_of_exec {zone : TimeZone} {outcomes : List DayOutcome} {s s' : Ingestion}
    (hexec : Run.exec (ingestStep zone) Run.always s outcomes = some s') :
    s'.asked.length = s.asked.length + outcomes.length ∧
      ∀ outcome ∈ outcomes.dropLast, outcome = .inserted ∨ outcome = .existed := by
  induction outcomes generalizing s with
  | nil =>
    cases hexec
    simp
  | cons outcome rest ih =>
    simp only [Run.exec, Run.always, ↓reduceIte] at hexec
    obtain ⟨next, hstep, hrest⟩ := Option.bind_eq_some_iff.mp hexec
    obtain ⟨-, hlength, hgoes⟩ := ingestStep_spec hstep
    obtain ⟨htotal, hbefore⟩ := ih hrest
    refine ⟨by rw [htotal, hlength, List.length_cons]; omega, ?_⟩
    cases rest with
    | nil => simp
    | cons following rest =>
      simp only [Run.exec, Run.always, ↓reduceIte] at hrest
      obtain ⟨_, hfollows, -⟩ := Option.bind_eq_some_iff.mp hrest
      rw [List.dropLast_cons_cons, List.forall_mem_cons]
      exact ⟨hgoes (ingestStep_spec hfollows).1, hbefore⟩

/-- An ingestion asks for one day after the other up to the first one without a puzzle.  The dates
are consecutive from the right one just when the day after the start is the first day to ask for and
the clock keeps to the days; in a zone that skips within a day this fails just on an empty table
west of UTC. -/
theorem ingestion_asks_each_day {zone : TimeZone} {table : List CivilDate}
    {outcomes : List DayOutcome} {s : Ingestion}
    (hexec : Run.exec (ingestStep zone) Run.always (Ingestion.start zone table) outcomes =
      some s) :
    s.asked.length = outcomes.length ∧
      (∀ outcome ∈ outcomes.dropLast, outcome = .inserted ∨ outcome = .existed) ∧
      (s.asked = datesFrom (firstDay table) outcomes.length ↔
        AsksEachDay zone table outcomes.length) ∧
      (zone.SkipsWithin msPerDay → (∀ t, |zone.offset t| < msPerDay) →
        -lastDay + 2 ≤ firstDay table → firstDay table + outcomes.length + 1 ≤ lastDay →
          (s.asked = datesFrom (firstDay table) outcomes.length ↔
            outcomes = [] ∨ latestStored table ≠ none ∨ 0 ≤ zone.offset originMidnight)) := by
  obtain ⟨hlength, hbefore⟩ := outcomes_of_exec hexec
  have hcount : s.asked.length = outcomes.length := by simpa [Ingestion.start] using hlength
  have hiff := asked_eq_datesFrom_iff (Run.exec_reaches hexec)
  rw [hcount] at hiff
  refine ⟨hcount, hbefore, hiff, fun hzone hoffset hfirst hlast => ?_⟩
  rw [hiff, asksEachDay_iff_of_skipsWithin hzone hoffset hfirst hlast, List.length_eq_zero_iff]

/-- Cairo in 2024: the clock skips the first hour of the twenty-sixth of April. -/
def cairo : TimeZone :=
  ⟨2 * msPerHour, [⟨1714082400000, 3 * msPerHour⟩], by decide⟩

/-- Across the change, on a day that begins at one o'clock. -/
theorem ingestion_asks_each_day_in_cairo :
    ∃ s, Run.exec (ingestStep cairo) Run.always
        (Ingestion.start cairo [⟨2024, 3, 25, by decide, by decide⟩])
        [.inserted, .existed, .noPuzzle] = some s ∧
      s.asked = ["2024-04-26", "2024-04-27", "2024-04-28"] := by
  have hends : (Run.exec (ingestStep cairo) Run.always
      (Ingestion.start cairo [⟨2024, 3, 25, by decide, by decide⟩])
      [.inserted, .existed, .noPuzzle]).isSome := by decide
  obtain ⟨s, hexec⟩ := Option.isSome_iff_exists.mp hends
  have hoffset : ∀ t, |cairo.offset t| < msPerDay := by
    intro t
    simp only [cairo, TimeZone.offset, offsetFrom]
    split <;> decide
  obtain ⟨-, -, -, hwithin⟩ := ingestion_asks_each_day hexec
  have hasked := (hwithin (by decide) hoffset (by decide) (by decide)).mpr (.inr (.inl (by decide)))
  exact ⟨s, hexec, hasked.trans (by decide)⟩

/-- New York around the origin date. -/
def newYork : TimeZone :=
  ⟨-5 * msPerHour, [⟨1678604400000, -4 * msPerHour⟩, ⟨1699164000000, -5 * msPerHour⟩], by decide⟩

/-- On an empty table the ingestion of a host in New York asks for the day before the first
puzzle. -/
theorem ingestion_asks_for_eve :
    ∃ s, Run.exec (ingestStep newYork) Run.always (Ingestion.start newYork []) [.noPuzzle] =
        some s ∧
      s.asked = ["2023-06-11"] ∧ s.asked ≠ datesFrom (firstDay []) 1 := by
  have hends : (Run.exec (ingestStep newYork) Run.always (Ingestion.start newYork [])
      [.noPuzzle]).map (·.asked) = some ["2023-06-11"] := by decide
  obtain ⟨s, hexec, hasked⟩ := Option.map_eq_some_iff.mp hends
  exact ⟨s, hexec, hasked, hasked ▸ by decide⟩

end Connections

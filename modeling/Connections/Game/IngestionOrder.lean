import Connections.Game.IngestedPuzzles

/-!
# Ingestions that go forward leave no day out

On a clock that skips within a day, and that was not behind UTC at the first midnight of the
puzzles, each ingestion that goes forward asks for the day after one that is stored.  So the stored
days follow one another from the first one on, whatever the order in which the ingestions store them
and wherever they stop.
-/

namespace Connections

open Calendar Clock JobQueue KeyedTable

/-! ### One day on the clock -/

section Day

variable {zone : TimeZone}

/-- A reading that is made a time is on the day it was on. -/
theorem localTime_div_of_timeClip (hzone : zone.SkipsWithin msPerDay) {reading time : ℤ}
    (h : timeClip (zone.utc reading) = some time) :
    zone.localTime time / msPerDay = reading / msPerDay := by
  obtain ⟨-, rfl⟩ := timeClip_utc_eq_some.mp h
  exact TimeZone.settle_div (by decide) hzone reading

/-- The day after a time, when there is one, is on the next day. -/
theorem localTime_div_of_addDays (hzone : zone.SkipsWithin msPerDay) {time next : ℤ}
    (h : addDays zone (some time) 1 = some next) :
    zone.localTime next / msPerDay = zone.localTime time / msPerDay + 1 := by
  rw [addDays_eq, Int.one_mul] at h
  rw [localTime_div_of_timeClip hzone h]
  exact Int.add_ediv_of_dvd_right (Int.dvd_refl _)

/-- The start of an ingestion, when it is a time, is on the eve of the first day to ask for. -/
theorem localTime_div_of_getLatestDate (hzone : zone.SkipsWithin msPerDay)
    (heast : 0 ≤ zone.offset originMidnight) (hday : zone.offset originMidnight < msPerDay)
    {table : List CivilDate} {time : ℤ} (h : getLatestDate zone table = some time) :
    zone.localTime time / msPerDay + 1 = firstDay table := by
  rw [getLatestDate_eq] at h
  rw [localTime_div_of_timeClip hzone h]
  unfold startReading firstDay
  cases latestStored table with
  | some date =>
    have hmidnight : date.dayNumber * msPerDay / msPerDay = date.dayNumber :=
      Int.mul_ediv_cancel _ (by decide)
    rw [hmidnight]
  | none =>
    simp only [TimeZone.localTime, originMidnight, msPerDay] at heast hday ⊢
    omega

end Day

/-! ### The stored days -/

/-- The stored days, in the order of their insertion, follow one another from the first one on. -/
def InOrder (rows : List (Row CivilDate PuzzleColumns)) : Prop :=
  rows.reverse.map (·.key) =
    (List.range rows.length).map fun i : ℕ => .ofDayNumber (nytConnectionsOriginDate.dayNumber + i)

/-- The stored days are those from the first one on, as many as there are. -/
theorem InOrder.mem_iff {rows : List (Row CivilDate PuzzleColumns)} (h : InOrder rows)
    {day : CivilDate} : (∃ row ∈ rows, row.key = day) ↔
      nytConnectionsOriginDate.dayNumber ≤ day.dayNumber ∧
        day.dayNumber < nytConnectionsOriginDate.dayNumber + rows.length := by
  have hkeys : (∃ row ∈ rows, row.key = day) ↔ day ∈ rows.reverse.map (·.key) := by simp
  rw [hkeys, h, List.mem_map]
  constructor
  · rintro ⟨i, hi, rfl⟩
    have hlt := List.mem_range.mp hi
    rw [CivilDate.dayNumber_ofDayNumber]
    omega
  · rintro ⟨hfirst, hlast⟩
    refine ⟨(day.dayNumber - nytConnectionsOriginDate.dayNumber).toNat, ?_, ?_⟩
    · rw [List.mem_range]
      omega
    · have hcarry : nytConnectionsOriginDate.dayNumber +
          ((day.dayNumber - nytConnectionsOriginDate.dayNumber).toNat : ℤ) = day.dayNumber := by
        omega
      rw [hcarry, CivilDate.ofDayNumber_dayNumber]

/-- The first day to ask for is the one after the stored ones. -/
theorem InOrder.firstDay_eq {rows : List (Row CivilDate PuzzleColumns)} (h : InOrder rows) :
    firstDay (rows.map (·.key)) = nytConnectionsOriginDate.dayNumber + rows.length := by
  unfold firstDay latestStored
  rw [List.map_map]
  cases hmax : (rows.map (CivilDate.dayNumber ∘ (·.key))).max? with
  | none =>
    have hnil : rows = [] := by simpa using List.max?_eq_none_iff.mp hmax
    simp [hnil]
  | some last =>
    obtain ⟨hmem, hbound⟩ := List.max?_eq_some_iff.mp hmax
    obtain ⟨row, hrow, rfl⟩ := List.mem_map.mp hmem
    have hin := h.mem_iff.mp ⟨row, hrow, rfl⟩
    have hlatest : ∃ row ∈ rows,
        row.key = .ofDayNumber (nytConnectionsOriginDate.dayNumber + rows.length - 1) := by
      rw [h.mem_iff, CivilDate.dayNumber_ofDayNumber]
      omega
    obtain ⟨newest, hnewest, hkey⟩ := hlatest
    have hle := hbound _ (List.mem_map.mpr ⟨newest, hnewest, rfl⟩)
    simp only [Function.comp_apply, hkey, CivilDate.dayNumber_ofDayNumber] at hle hin
    simp only [Option.map_some, Function.comp_apply, CivilDate.dayNumber_ofDayNumber]
    omega

/-- The next day is stored behind them. -/
theorem InOrder.cons {rows : List (Row CivilDate PuzzleColumns)} (h : InOrder rows) {id : ℕ}
    {day : CivilDate} {columns : PuzzleColumns}
    (hday : day.dayNumber = nytConnectionsOriginDate.dayNumber + rows.length) :
    InOrder (⟨id, day, columns⟩ :: rows) := by
  unfold InOrder at *
  rw [List.reverse_cons, List.map_append, h, List.length_cons, List.range_succ, List.map_append,
    List.map_singleton, List.map_singleton, ← hday, CivilDate.ofDayNumber_dayNumber]

/-! ### The days asked for -/

/-- An itinerary goes forward, from the eve of a stored day or of the one behind them. -/
def Forward (zone : TimeZone) (count : ℕ) (itinerary : Itinerary) : Prop :=
  ∃ latestDate, itinerary = .forward latestDate ∧ ∀ time ∈ latestDate,
    nytConnectionsOriginDate.dayNumber - 1 ≤ zone.localTime time / msPerDay ∧
      zone.localTime time / msPerDay < nytConnectionsOriginDate.dayNumber + count

/-- The day asked for is a stored one or the one behind them. -/
theorem Forward.asked {zone : TimeZone} (hzone : zone.SkipsWithin msPerDay) {count : ℕ}
    {itinerary : Itinerary} (h : Forward zone count itinerary) {day : CivilDate}
    (hday : itinerary.asked zone = some day) :
    nytConnectionsOriginDate.dayNumber ≤ day.dayNumber ∧
      day.dayNumber ≤ nytConnectionsOriginDate.dayNumber + count := by
  obtain ⟨latestDate, rfl, hbounds⟩ := h
  obtain ⟨next, hnext, rfl⟩ := Option.map_eq_some_iff.mp hday
  rw [hostDate, CivilDate.dayNumber_ofDayNumber]
  cases latestDate with
  | none => cases hnext
  | some time =>
    have hbound := hbounds time rfl
    rw [localTime_div_of_addDays hzone hnext]
    omega

/-- Behind a stored day the itinerary goes on. -/
theorem Forward.next {zone : TimeZone} (hzone : zone.SkipsWithin msPerDay) {count : ℕ}
    {itinerary : Itinerary} (h : Forward zone count itinerary)
    (hstored : ∀ day ∈ itinerary.asked zone,
      day.dayNumber < nytConnectionsOriginDate.dayNumber + count) :
    Forward zone count (itinerary.next zone) := by
  obtain ⟨latestDate, rfl, hbounds⟩ := id h
  refine ⟨addDays zone latestDate 1, rfl, fun next hnext => ?_⟩
  have hasked : (Itinerary.forward latestDate).asked zone = some (hostDate zone next) :=
    congrArg (Option.map (hostDate zone)) hnext
  have hlow := (h.asked hzone hasked).1
  have hhigh := hstored _ hasked
  rw [hostDate, CivilDate.dayNumber_ofDayNumber] at hlow hhigh
  omega

theorem Forward.mono {zone : TimeZone} {count : ℕ} {itinerary : Itinerary}
    (h : Forward zone count itinerary) : Forward zone (count + 1) itinerary := by
  obtain ⟨latestDate, hforward, hbounds⟩ := h
  refine ⟨latestDate, hforward, fun time htime => ?_⟩
  have hbound := hbounds time htime
  push_cast
  omega

namespace IngestionFleet

variable {env : IngestionEnv}

/-- An event that begins no backfill. -/
def isForward : IngestionEvent → Bool
  | .backfill _ => false
  | _ => true

/-- The stored days are in order, every call goes forward among them, and a puzzle that a call is
about to dispatch is stored. -/
structure Gapless (env : IngestionEnv) (w : IngestionFleet) : Prop where
  rows : InOrder w.puzzles.rows
  forward : ∀ call ∈ w.calls, Forward env.zone w.puzzles.rows.length call.itinerary
  stored : ∀ call ∈ w.calls, call.state.puzzleId ≠ none → ∀ day ∈ call.itinerary.asked env.zone,
    day.dayNumber < nytConnectionsOriginDate.dayNumber + w.puzzles.rows.length

theorem Gapless.fresh : Gapless env fresh :=
  ⟨rfl, by simp [IngestionFleet.fresh], by simp [IngestionFleet.fresh]⟩

/-- A call replaced by one that goes forward, with no puzzle to dispatch. -/
theorem Gapless.setCall {w : IngestionFleet} (h : Gapless env w) (i : ℕ) {next : IngestionCall}
    (hforward : Forward env.zone w.puzzles.rows.length next.itinerary)
    (hidle : next.state.puzzleId = none) : Gapless env (w.setCall i next) :=
  ⟨h.rows, Run.forall_mem_set h.forward hforward,
    Run.forall_mem_set h.stored fun hbusy => absurd hidle hbusy⟩

/-- A call that goes into another state, with no puzzle to dispatch. -/
theorem Gapless.setState {w : IngestionFleet} (h : Gapless env w) {i : ℕ} {call : IngestionCall}
    (hcall : w.calls[i]? = some call) {state : IngestionState} (hidle : state.puzzleId = none) :
    Gapless env (w.setCall i { call with state := state }) :=
  h.setCall i (h.forward call (List.mem_of_getElem? hcall)) hidle

/-- A call more that goes forward, with no puzzle to dispatch. -/
theorem Gapless.addCall {w : IngestionFleet} (h : Gapless env w) {call : IngestionCall}
    (hforward : Forward env.zone w.puzzles.rows.length call.itinerary)
    (hidle : call.state.puzzleId = none) :
    Gapless env { w with calls := w.calls ++ [call] } :=
  ⟨h.rows, Run.forall_mem_concat h.forward hforward,
    Run.forall_mem_concat h.stored fun hbusy => absurd hidle hbusy⟩

/-- A call goes on behind a stored day. -/
theorem Gapless.setNext {w : IngestionFleet} (hzone : env.zone.SkipsWithin msPerDay)
    (h : Gapless env w) (i : ℕ) {call next : IngestionCall} (hcall : w.calls[i]? = some call)
    (hnext : next.itinerary = call.itinerary.next env.zone)
    (hstate : next.state = .reading ∨ next.state = .returned)
    (hstored : ∀ day ∈ call.itinerary.asked env.zone,
      day.dayNumber < nytConnectionsOriginDate.dayNumber + w.puzzles.rows.length) :
    Gapless env (w.setCall i next) := by
  refine h.setCall i ?_ ?_
  · rw [hnext]
    exact (h.forward call (List.mem_of_getElem? hcall)).next hzone hstored
  · rcases hstate with hstate | hstate <;> rw [hstate] <;> rfl

/-- Behind a day whose puzzle is stored already a call goes on as behind any other. -/
theorem existed_itinerary (zone : TimeZone) (call : IngestionCall) :
    (call.existed zone).itinerary = call.itinerary.next zone := by
  unfold IngestionCall.existed
  split <;> rfl

/-- A day without a puzzle ends the way of a call that goes forward. -/
theorem noPuzzle_itinerary {zone : TimeZone} {count : ℕ} {call : IngestionCall}
    (h : Forward zone count call.itinerary) :
    (call.noPuzzle zone).itinerary = call.itinerary := by
  obtain ⟨latestDate, hforward, -⟩ := h
  unfold IngestionCall.noPuzzle
  rw [hforward]

/-- Every step that begins no backfill leaves no day out. -/
theorem Gapless.step (hzone : env.zone.SkipsWithin msPerDay)
    (heast : 0 ≤ env.zone.offset originMidnight) (hday : env.zone.offset originMidnight < msPerDay)
    {w w' : IngestionFleet} {e : IngestionEvent} (h : Gapless env w) (hok : isForward e)
    (hstep : step env w e = some w') : Gapless env w' := by
  have hkeep {i : ℕ} {call : IngestionCall} (hcall : w.calls[i]? = some call) :
      Forward env.zone w.puzzles.rows.length call.itinerary :=
    h.forward call (List.mem_of_getElem? hcall)
  cases step_cases hstep with
  | populate =>
    refine h.addCall ⟨_, rfl, fun time htime => ?_⟩ rfl
    have heve := localTime_div_of_getLatestDate hzone heast hday htime
    rw [h.rows.firstDay_eq] at heve
    omega
  | backfill dates => cases hok
  | loseCache formattedDate => exact ⟨h.rows, h.forward, h.stored⟩
  | trigger row strategyName hrow hautomatic => exact ⟨h.rows, h.forward, h.stored⟩
  | work event queue hqueue => exact ⟨h.rows, h.forward, h.stored⟩
  | read i call data hcall hstate hlookup => exact h.setState hcall rfl
  | ask i call event hcall hstate => exact h.setState hcall rfl
  | fetched i call attempt response data hcall hstate hfetch => exact h.setState hcall rfl
  | again i call attempt response hcall hstate hfetch => exact h.setState hcall rfl
  | noPuzzle i call attempt response hcall hstate hfetch =>
    refine h.setCall i ?_ ?_
    · rw [noPuzzle_itinerary (hkeep hcall)]
      exact hkeep hcall
    · rcases call.noPuzzle_state env.zone with hdone | hdone <;> rw [hdone] <;> rfl
  | cached i call data written hcall hstate =>
    have hset : Gapless env (w.setCall i { call with state := .inserting data }) :=
      h.setState hcall rfl
    exact ⟨hset.rows, hset.forward, hset.stored⟩
  | inserted i call data day columns puzzles hcall hstate hasked hcolumns hrows hfree =>
    obtain ⟨hlow, hhigh⟩ := (hkeep hcall).asked hzone hasked
    have hnext : day.dayNumber =
        nytConnectionsOriginDate.dayNumber + w.puzzles.rows.length := by
      have hnew := mt h.rows.mem_iff.mpr fun ⟨row, hrow, hkey⟩ => hfree row hrow hkey
      omega
    have hlength : puzzles.rows.length = w.puzzles.rows.length + 1 := by
      rw [hrows, List.length_cons]
    refine ⟨?_, Run.forall_mem_set (fun k hk => ?_) ?_, Run.forall_mem_set (fun k hk => ?_) ?_⟩
    · rw [hrows]
      exact h.rows.cons hnext
    · rw [hlength]
      exact (h.forward k hk).mono
    · rw [hlength]
      exact (hkeep hcall).mono
    · intro hbusy other hother
      have hbound := h.stored k hk hbusy other hother
      push_cast [hlength]
      omega
    · intro _ other hother
      cases Option.some.inj (hasked.symm.trans hother)
      push_cast [hlength]
      omega
  | existed i call data day hcall hstate hasked hrow =>
    refine h.setNext hzone i hcall (existed_itinerary env.zone call)
      (call.existed_state env.zone) fun other hother => ?_
    cases Option.some.inj (hasked.symm.trans hother)
    exact (h.rows.mem_iff.mp hrow).2
  | dispatched i call puzzleId hcall hstate =>
    have hbusy : call.state.puzzleId ≠ none := by rw [hstate]; exact Option.some_ne_none _
    have hset := h.setNext hzone i hcall rfl (call.dispatched_state env.zone)
      (h.stored call (List.mem_of_getElem? hcall) hbusy)
    exact ⟨hset.rows, hset.forward, hset.stored⟩
  | dispatchFailed i call puzzleId taken hcall hstate =>
    have hbusy : call.state.puzzleId ≠ none := by rw [hstate]; exact Option.some_ne_none _
    have hset := h.setNext hzone i hcall rfl (call.dispatched_state env.zone)
      (h.stored call (List.mem_of_getElem? hcall) hbusy)
    exact ⟨hset.rows, hset.forward, hset.stored⟩
  | threw i call event message hcall hstate => exact h.setState hcall rfl
  | crashed i call hcall => exact h.setState hcall rfl

/-- As long as nobody backfills, the stored days follow one another from the first one on, however
many ingestions go forward at once and wherever each of them stops. -/
theorem forward_ingestions_leave_no_day_out (hzone : env.zone.SkipsWithin msPerDay)
    (heast : 0 ≤ env.zone.offset originMidnight) (hday : env.zone.offset originMidnight < msPerDay)
    {w : IngestionFleet} (h : Run.Reaches (step env) (fun _ e => isForward e) fresh w) :
    w.puzzles.rows.reverse.map (·.key) = (List.range w.puzzles.rows.length).map fun i : ℕ =>
      .ofDayNumber (nytConnectionsOriginDate.dayNumber + i) := by
  have hgapless : Gapless env w :=
    h.invariant .fresh fun _ _ _ hinv hok hstep => hinv.step hzone heast hday hok hstep
  exact hgapless.rows

/-- Two ingestions of the first days, in Cairo. -/
theorem two_ingestions_leave_no_day_out :
    ∃ w, Run.Reaches (step cairoEnv) (fun _ e => isForward e) fresh w ∧
      w.puzzles.rows.reverse.map (·.key) = (List.range 2).map fun i : ℕ =>
        .ofDayNumber (nytConnectionsOriginDate.dayNumber + i) := by
  obtain ⟨w, hrun, hend⟩ := Run.exists_reaches (step cairoEnv) (fun _ e => isForward e) fresh
    twoIngestions (fun w => w.puzzles.rows.length = 2) (by decide +kernel)
  have hdays := forward_ingestions_leave_no_day_out (by decide) (by decide) (by decide) hrun
  rw [of_decide_eq_true hend] at hdays
  exact ⟨w, hrun, hdays⟩

end IngestionFleet

end Connections

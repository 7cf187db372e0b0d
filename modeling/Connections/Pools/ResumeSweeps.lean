import Connections.Holds.RateLimitHold
import Connections.Library.JobQueue
import Connections.Strategy.Entities
import Mathlib.Algebra.Group.Nat.Defs

/-!
# The resume sweeps of a pool

A sweep revives the parked runs of a pool whose models are held no more, and adds a follow-up sweep
when it leaves any parked.  The sweeps of a pool ride a queue of their own, one at a time; the
runner sets holds and parks runs meanwhile.
-/

namespace Connections

open JobQueue KeyedTable

/-- Ids of sweep jobs: the catch-up of a start, named after the day, a firing of the cron, and a
follow-up, named after the minute it aims at. -/
inductive SweepJobId
  | startupCatchUp (day : ℕ)
  | cron (firing : ℕ)
  | rearm (targetMinute : ℕ)
  deriving DecidableEq, Repr

/-- The columns of a parked run that a sweep reads. -/
structure ParkedRun where
  id : ℕ
  modelName : Option String
  deriving DecidableEq, Repr

/-- How far a sweep has come. -/
inductive SweepPhase
  | finding
  | removing (callId : ℕ)
  | checking
  | loading (stillHeld : List String)
  | resuming (stillHeld : List String) (rest : List ParkedRun)
  /-- The job of the run is added, its status is not saved. -/
  | saving (stillHeld : List String) (run : ParkedRun) (rest : List ParkedRun)
  | rearming
  | adding (soonest : Option ℕ)
  | done (rearmedInMs : Option ℕ)
  deriving DecidableEq

/-- A call of `resumeModelPool` for a job. -/
structure Sweep where
  jobId : SweepJobId
  cleared : List String
  redispatched : ℕ
  skipped : ℕ
  phase : SweepPhase
  deriving DecidableEq

/-- The holds, the parked runs of the pool, its sweep jobs, each with the time it is due, and the
sweep in progress. -/
structure SweepFleet where
  holds : HoldStore
  parked : List ParkedRun
  queue : Queue SweepJobId ℕ
  sweep : Option Sweep

/-- What the sweep in progress does. -/
inductive SweepEvent
  | findExpired
  | removeExpired
  | readHeld
  | loadParked (runs : List ParkedRun)
  | next
  | save
  | readNextReset
  | rearm
  | complete
  | throws
  deriving DecidableEq

/-- What happens around the sweeps. -/
inductive ChainEvent
  /-- The clock, and the calls on the holds. -/
  | holds (event : HoldEvent)
  | park (run : ParkedRun)
  /-- The backend or the worker starts. -/
  | startup
  | cron (firing : ℕ)
  | promote (jobId : SweepJobId)
  | pick (jobId : SweepJobId)
  | stall (jobId : SweepJobId)
  | sweep (event : SweepEvent)
  /-- The worker is gone. -/
  | crash
  deriving DecidableEq

def minuteMs : ℕ := 60000

/-- The cap of a follow-up where the schedule has none. -/
def rearmMaxDelayMs : ℕ := 15 * 60000

/-- How often a sweep job is tried. -/
def sweepAttempts : ℕ := 5

/-- How many failed sweep jobs are kept. -/
def sweepRemoveOnFail : ℕ := 50

/-- The wait before another attempt. -/
def sweepBackoffMs (attemptsMade : ℕ) : ℕ := 30000 * 2 ^ (attemptsMade - 1)

/-- A pool with a free tier whose holds are on its models. -/
structure ModelPool where
  id : ProviderPoolId
  freeTier : FreeTierConfig
  is_freeTier : id.freeTier = some freeTier
  is_perModel : freeTier.holdScope = .model

namespace ModelPool

/-- The cap of a pool's follow-ups. -/
def rearmCap (pool : ModelPool) : ℕ :=
  match pool.freeTier.resetSchedule with
  | .selfRearm maxDelayMs => maxDelayMs
  | .fixedCron _ _ => rearmMaxDelayMs

/-- Whether a pool's sweeps are on a cron. -/
def isFixedCron (pool : ModelPool) : Bool :=
  match pool.freeTier.resetSchedule with
  | .selfRearm _ => false
  | .fixedCron _ _ => true

/-- All follow-ups have the same cap. -/
theorem rearmCap_eq (pool : ModelPool) : pool.rearmCap = 900000 := by
  obtain ⟨id, freeTier, hfree, hmodel⟩ := pool
  cases id <;> cases hfree <;> rfl

end ModelPool

namespace HoldStore

/-- The live holds of a strategy. -/
def liveHolds (w : HoldStore) (strategyName : String) : List (Row HoldKey RateLimitHold) :=
  w.table.rows.filter fun row => row.key.strategyName = strategyName ∧ w.now < row.value.resetAt

/-- The models of a strategy with a live hold. -/
def heldModels (w : HoldStore) (strategyName : String) : List String :=
  (w.liveHolds strategyName).filterMap (·.key.modelName)

/-- The soonest reset of a strategy's live holds. -/
def nextResetAt (w : HoldStore) (strategyName : String) : Option ℕ :=
  ((w.liveHolds strategyName).map (·.value.resetAt)).min?

end HoldStore

namespace SweepFleet

/-- No holds, no parked runs and no sweeps. -/
def fresh : SweepFleet := ⟨.fresh, [], .empty, none⟩

/-- A failed attempt is made again after a while; the last one fails the job. -/
def failSweep (w : SweepFleet) (jobId : SweepJobId) : Option (Queue SweepJobId ℕ) :=
  (w.queue.lookup jobId).bind fun j =>
    if j.state = .active then
      if j.attemptsMade + 1 < sweepAttempts then
        some (w.queue.relist { j with
          state := .delayed
          attemptsMade := j.attemptsMade + 1
          data := w.holds.now + sweepBackoffMs (j.attemptsMade + 1) })
      else
        some ((w.queue.relist { j with state := .failed, attemptsMade := j.attemptsMade + 1 }).trim
          .failed sweepRemoveOnFail)
    else none

section Step

variable (pool : ModelPool)

/-- The delay of a follow-up, until the soonest reset and no longer than the cap. -/
def rearmDelay (now : ℕ) (soonest : Option ℕ) : ℕ :=
  min (soonest.elim pool.rearmCap fun reset => reset - now) pool.rearmCap

/-- The minute that a follow-up aims at, and is named after. -/
def targetMinute (now : ℕ) (soonest : Option ℕ) : ℕ :=
  (now + rearmDelay pool now soonest) / minuteMs

/-- The step of the sweep in progress. -/
def sweepStep (w : SweepFleet) (s : Sweep) : SweepPhase → SweepEvent → Option SweepFleet
  | .finding, .findExpired =>
    (w.holds.step (.find (some pool.id.strategyName) w.holds.now)).map fun holds =>
      { w with
        holds := holds
        sweep := some { s with
          cleared := (w.holds.expired (some pool.id.strategyName) w.holds.now).filterMap
            (·.key.modelName)
          phase := .removing w.holds.nextCall } }
  | .removing callId, .removeExpired =>
    (w.holds.step (.remove callId)).map fun holds =>
      { w with holds := holds, sweep := some { s with phase := .checking } }
  | .checking, .readHeld =>
    some { w with
      sweep := some { s with phase := .loading (w.holds.heldModels pool.id.strategyName) } }
  | .loading stillHeld, .loadParked runs =>
    if runs.Perm w.parked then
      some { w with sweep := some { s with phase := .resuming stillHeld runs } }
    else none
  | .resuming _ [], .next =>
    some { w with
      sweep := some { s with phase := if 0 < s.skipped then .rearming else .done none } }
  | .resuming stillHeld (run :: rest), .next =>
    let skip := { s with skipped := s.skipped + 1, phase := .resuming stillHeld rest }
    some { w with
      sweep := some (match run.modelName.filter (· ≠ "") with
        | none => skip
        | some modelName =>
          if modelName ∈ stillHeld then skip
          else { s with phase := .saving stillHeld run rest }) }
  | .saving stillHeld run rest, .save =>
    some { w with
      parked := w.parked.filter (·.id ≠ run.id)
      sweep := some { s with
        redispatched := s.redispatched + 1
        phase := .resuming stillHeld rest } }
  | .rearming, .readNextReset =>
    some { w with
      sweep := some { s with phase := .adding (w.holds.nextResetAt pool.id.strategyName) } }
  | .adding soonest, .rearm =>
    let delay := rearmDelay pool w.holds.now soonest
    some { w with
      queue := w.queue.add (.rearm (targetMinute pool w.holds.now soonest)) (w.holds.now + delay)
        (if delay = 0 then .waiting else .delayed)
      sweep := some { s with phase := .done (some delay) } }
  | .done _, .complete =>
    (w.queue.complete 0 s.jobId).map fun queue => { w with queue := queue, sweep := none }
  | .done _, _ => none
  | _, .throws => (w.failSweep s.jobId).map fun queue => { w with queue := queue, sweep := none }
  | _, _ => none

/-- One step around the sweeps; an event that cannot happen is refused. -/
def step (w : SweepFleet) : ChainEvent → Option SweepFleet
  | .holds event => (w.holds.step event).map fun holds => { w with holds := holds }
  | .park run => some { w with parked := run :: w.parked.filter (·.id ≠ run.id) }
  | .startup =>
    some { w with
      queue := w.queue.add (.startupCatchUp (w.holds.now / dayMs)) w.holds.now .waiting }
  | .cron firing =>
    if pool.isFixedCron then
      some { w with queue := w.queue.add (.cron firing) w.holds.now .waiting }
    else none
  | .promote jobId =>
    (w.queue.lookup jobId).bind fun j =>
      if j.data ≤ w.holds.now then
        (w.queue.move jobId .delayed .waiting).map fun queue => { w with queue := queue }
      else none
  | .pick jobId =>
    if w.sweep.isNone then
      (w.queue.move jobId .waiting .active).map fun queue =>
        { w with queue := queue, sweep := some ⟨jobId, [], 0, 0, .finding⟩ }
    else none
  | .stall jobId =>
    if w.sweep.all fun s => s.jobId ≠ jobId then
      (w.queue.move jobId .active .waiting).map fun queue => { w with queue := queue }
    else none
  | .sweep event => w.sweep.bind fun s => w.sweepStep pool s s.phase event
  | .crash => some { w with sweep := none }

end Step

end SweepFleet

end Connections

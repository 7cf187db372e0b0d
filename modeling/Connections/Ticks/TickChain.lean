import Connections.Budget.Ledger
import Connections.Holds.RateLimitHold
import Connections.Pools.ProviderPool

/-!
# The tick chain of a free dispatch cycle

One dispatch row and one tick queue: of a pool that runs until every model is held, of the pool
with an account budget, or of a free-tier program.  A tick reads the row, decides from what it
reads next, and either takes the cycle down or queues its own successor under a fresh id, while
starts and stops change the row.
-/

namespace Connections

/-- Whose dispatch row and tick queue it is. -/
inductive Dispatcher
  | pool (poolId : ProviderPoolId)
  | tier (tier : FreeTierId)
  deriving DecidableEq, Repr

/-- What a start reads before it saves the row. -/
structure StartReads where
  models : List String
  held : List String
  accountHeld : Bool
  callsToday : ℕ
  budget : ℕ
  deriving DecidableEq, Repr

/-- What a tick reads after it has found its cycle active; each stop condition uses its own
fields. -/
structure TickReads where
  models : List String
  held : List String
  heldReason : Option RateLimitHoldReason
  callsToday : ℕ
  budget : ℕ
  callsPerTrial : ℕ
  maxBatch : ℕ
  maxInFlight : ℕ
  inFlightTotal : ℕ
  usedTokens : ℕ
  committedTokens : ℕ
  caps : List (String × ℕ)
  /-- Every candidate model ran out of unrun puzzles in this tick. -/
  allExhausted : Bool
  deriving DecidableEq, Repr

/-- How a tick ends. -/
inductive TickOutcome
  | deactivate
  | schedule
  deriving DecidableEq, Repr

/-- A dispatch row. -/
structure DispatchRow where
  active : Bool
  thresholdPercent : Option ℕ
  startedAt : Option ℕ
  deriving DecidableEq, Repr

/-- How far a tick job is. -/
inductive TickPhase
  | queued
  | picked
  /-- It has read the row as active. -/
  | running (thresholdPercent : Option ℕ)
  /-- It has found the row inactive, taken the cycle down, or queued its successor. -/
  | spent
  deriving DecidableEq, Repr

/-- A tick job. -/
structure TickJob where
  id : ℕ
  attemptsMade : ℕ
  phase : TickPhase
  deriving DecidableEq, Repr

/-- A start that has read the row as inactive. -/
structure StartCall where
  id : ℕ
  thresholdPercent : Option ℕ
  /-- The row is saved as active and the tick not yet queued. -/
  saved : Bool
  deriving DecidableEq, Repr

/-- A dispatch row, its tick queue, and the starts in progress; `now` stamps rows and ids and
moves on with each of them. -/
structure TickChain where
  now : ℕ
  row : Option DispatchRow
  ticks : List TickJob
  /-- The ticks that have failed their last attempt. -/
  failed : List ℕ
  starts : List StartCall
  deriving DecidableEq

/-- What happens to a tick chain. -/
inductive TickEvent
  | startRead (thresholdPercent : Option ℕ)
  | startSave (startId : ℕ) (reads : StartReads)
  | startAdd (startId : ℕ)
  | stop
  | pick (tickId : ℕ)
  | readState (tickId : ℕ)
  | decide (tickId : ℕ) (reads : TickReads)
  | throws (tickId : ℕ)
  | complete (tickId : ℕ)
  deriving DecidableEq, Repr

/-- The attempts of a tick job. -/
def tickAttempts : ℕ := 3

/-- The allowance for a run's input on its first call. -/
def softInputAllowanceTokens : ℕ := 2000

/-- A tick of a pool that dispatches until every model is held. -/
def runUntilHeldTick (reads : TickReads) : TickOutcome :=
  if reads.models = [] then .deactivate
  else if reads.models.all (· ∈ reads.held) then .deactivate
  else if reads.maxInFlight ≤ reads.inFlightTotal then .schedule
  else if reads.allExhausted then .deactivate
  else .schedule

/-- How many trials a tick may queue under an account budget. -/
def maxNewTrials (reads : TickReads) : ℕ :=
  let slots := min reads.maxBatch (reads.maxInFlight - reads.inFlightTotal)
  let estimated := reads.inFlightTotal * reads.callsPerTrial
  let remaining := reads.budget - reads.callsToday - estimated
  if reads.callsPerTrial = 0 then slots else min slots (remaining / reads.callsPerTrial)

/-- A tick of the pool with an account budget. -/
def runAccountBudgetTick (reads : TickReads) : TickOutcome :=
  match reads.heldReason with
  | some .daily => .deactivate
  | some .perMinuteCooldown => .schedule
  | none =>
    if reads.models = [] then .deactivate
    else if reads.budget ≤ reads.callsToday + reads.inFlightTotal * reads.callsPerTrial then
      .deactivate
    else if reads.maxInFlight ≤ reads.inFlightTotal then .schedule
    else if maxNewTrials reads = 0 then .schedule
    else if reads.allExhausted then .deactivate
    else .schedule

/-- A model's next call fits into a budget, softly. -/
def fits (caps : List (String × ℕ)) (budget : ℤ) (model : String) : Bool :=
  (caps.lookup model).any fun cap => (cap + softInputAllowanceTokens : ℤ) ≤ budget

/-- A tick of a free-tier program, under a threshold in tokens. -/
def runTierTick (thresholdTokens : ℕ) (reads : TickReads) : TickOutcome :=
  let room : ℤ := thresholdTokens - reads.committedTokens
  if thresholdTokens ≤ reads.usedTokens then .deactivate
  else if reads.maxInFlight ≤ reads.inFlightTotal then .schedule
  else if reads.inFlightTotal = 0 ∧ !reads.models.any (fits reads.caps room) then .deactivate
  else if reads.allExhausted then .deactivate
  else .schedule

/-- How a tick of a dispatcher ends that has read its row as active.  `floorShare limit percent` is
the threshold as the host's floating-point floor computes it. -/
def Dispatcher.runTick (floorShare : ℕ → ℕ → ℕ) (d : Dispatcher) (thresholdPercent : Option ℕ)
    (reads : TickReads) : TickOutcome :=
  match d with
  | .tier program =>
    runTierTick (floorShare (dailyLimitTokens program) (thresholdPercent.getD 0)) reads
  | .pool poolId => match poolId.freeTier.map FreeTierConfig.stop with
    | some .accountBudget => runAccountBudgetTick reads
    | _ => runUntilHeldTick reads

/-- A start of a pool that has nothing to do. -/
def isStartExhausted (poolId : ProviderPoolId) (reads : StartReads) : Bool :=
  if reads.models = [] then true
  else match poolId.freeTier.map FreeTierConfig.stop with
    | some .accountBudget => reads.accountHeld || decide (reads.budget ≤ reads.callsToday)
    | _ => reads.models.all (· ∈ reads.held)

/-- Whether a start saves its row as active; a free-tier program starts in any case. -/
def Dispatcher.starts (d : Dispatcher) (reads : StartReads) : Bool :=
  match d with
  | .pool poolId => !isStartExhausted poolId reads
  | .tier _ => true

/-- The arguments that a start accepts: a pool with a free tier, or a whole percentage. -/
def Dispatcher.accepts : Dispatcher → Option ℕ → Bool
  | .pool poolId, none => poolId.freeTier.isSome
  | .tier _, some thresholdPercent => 0 < thresholdPercent ∧ thresholdPercent ≤ 100
  | _, _ => false

namespace TickChain

/-- Whether the dispatch row is active. -/
def active (w : TickChain) : Bool := w.row.any (·.active)

/-- `update` of the row, when there is one. -/
def deactivate (w : TickChain) : TickChain :=
  { w with row := w.row.map fun row => { row with active := false } }

/-- Queue a tick under a fresh id. -/
def addTick (w : TickChain) : TickChain :=
  { w with now := w.now + 1, ticks := ⟨w.now, 0, .queued⟩ :: w.ticks }

/-- Change a tick job. -/
def modifyTick (w : TickChain) (tickId : ℕ) (change : TickJob → TickJob) : TickChain :=
  { w with ticks := w.ticks.map fun t => if t.id = tickId then change t else t }

/-- Move a tick on. -/
def setPhase (w : TickChain) (tickId : ℕ) (phase : TickPhase) : TickChain :=
  w.modifyTick tickId fun t => { t with phase := phase }

/-- Remove a tick job. -/
def removeTick (w : TickChain) (tickId : ℕ) : TickChain :=
  { w with ticks := w.ticks.filter (·.id ≠ tickId) }

/-- End a start. -/
def endStart (w : TickChain) (startId : ℕ) : TickChain :=
  { w with starts := w.starts.filter (·.id ≠ startId) }

/-- A tick job by its id. -/
def tick (w : TickChain) (tickId : ℕ) : Option TickJob := w.ticks.find? (·.id = tickId)

/-- One step of a tick chain; an event that cannot happen is refused. -/
def step (floorShare : ℕ → ℕ → ℕ) (d : Dispatcher) (w : TickChain) : TickEvent → Option TickChain
  | .startRead thresholdPercent =>
    -- A start that finds the row active is rejected.
    if d.accepts thresholdPercent ∧ w.active = false then
      some { w with now := w.now + 1, starts := ⟨w.now, thresholdPercent, false⟩ :: w.starts }
    else none
  | .startSave startId reads => (w.starts.find? (·.id = startId)).bind fun call =>
    if call.saved then none
    else if d.starts reads then
      some { w with
        row := some ⟨true, call.thresholdPercent, some w.now⟩
        starts := w.starts.map fun s => if s.id = startId then { s with saved := true } else s }
    else some { w.endStart startId with row := some ⟨false, call.thresholdPercent, none⟩ }
  | .startAdd startId => (w.starts.find? (·.id = startId)).bind fun call =>
    if call.saved then some (w.endStart startId).addTick else none
  | .stop => some w.deactivate
  | .pick tickId => (w.tick tickId).bind fun t =>
    if t.phase = .queued then some (w.setPhase tickId .picked) else none
  | .readState tickId => (w.tick tickId).bind fun t =>
    if t.phase = .picked then
      some (match w.row with
        | some row =>
          w.setPhase tickId (if row.active then .running row.thresholdPercent else .spent)
        | none => w.setPhase tickId .spent)
    else none
  | .decide tickId reads => (w.tick tickId).bind fun t =>
    match t.phase with
    | .running thresholdPercent => some (match d.runTick floorShare thresholdPercent reads with
      | .deactivate => (w.setPhase tickId .spent).deactivate
      | .schedule => (w.setPhase tickId .spent).addTick)
    | _ => none
  | .throws tickId => (w.tick tickId).bind fun t =>
    match t.phase with
    | .queued | .spent => none
    | _ =>
      if t.attemptsMade + 1 < tickAttempts then
        some (w.modifyTick tickId fun t => ⟨t.id, t.attemptsMade + 1, .queued⟩)
      else some { w.removeTick tickId with failed := tickId :: w.failed }
  | .complete tickId => (w.tick tickId).bind fun t =>
    if t.phase = .spent then some (w.removeTick tickId) else none

/-- What one step can do, branch by branch. -/
inductive StepCase (floorShare : ℕ → ℕ → ℕ) (d : Dispatcher) (w : TickChain) :
    TickEvent → TickChain → Prop
  | startRead (thresholdPercent : Option ℕ) :
      StepCase floorShare d w (.startRead thresholdPercent)
        { w with now := w.now + 1, starts := ⟨w.now, thresholdPercent, false⟩ :: w.starts }
  | started (s : StartCall) (startId : ℕ) (reads : StartReads) :
      w.starts.find? (·.id = startId) = some s → d.starts reads →
      StepCase floorShare d w (.startSave startId reads)
        { w with
          row := some ⟨true, s.thresholdPercent, some w.now⟩
          starts := w.starts.map fun s => if s.id = startId then { s with saved := true } else s }
  | notStarted (s : StartCall) (startId : ℕ) (reads : StartReads) :
      StepCase floorShare d w (.startSave startId reads)
        { w.endStart startId with row := some ⟨false, s.thresholdPercent, none⟩ }
  | startAdd (s : StartCall) (startId : ℕ) :
      w.starts.find? (·.id = startId) = some s → s.saved →
      StepCase floorShare d w (.startAdd startId) (w.endStart startId).addTick
  | stopped : StepCase floorShare d w .stop w.deactivate
  | picked (t : TickJob) (tickId : ℕ) : w.tick tickId = some t → t.phase = .queued →
      StepCase floorShare d w (.pick tickId) (w.setPhase tickId .picked)
  | readActive (t : TickJob) (tickId : ℕ) (thresholdPercent : Option ℕ) :
      w.tick tickId = some t → t.phase = .picked → w.active →
      StepCase floorShare d w (.readState tickId) (w.setPhase tickId (.running thresholdPercent))
  | readInactive (t : TickJob) (tickId : ℕ) : w.tick tickId = some t → t.phase = .picked →
      w.active = false → StepCase floorShare d w (.readState tickId) (w.setPhase tickId .spent)
  | deactivated (t : TickJob) (tickId : ℕ) (thresholdPercent : Option ℕ) (reads : TickReads) :
      w.tick tickId = some t → t.phase = .running thresholdPercent →
      StepCase floorShare d w (.decide tickId reads) (w.setPhase tickId .spent).deactivate
  | scheduled (t : TickJob) (tickId : ℕ) (thresholdPercent : Option ℕ) (reads : TickReads) :
      w.tick tickId = some t → t.phase = .running thresholdPercent →
      StepCase floorShare d w (.decide tickId reads) (w.setPhase tickId .spent).addTick
  | requeued (t : TickJob) (tickId : ℕ) : w.tick tickId = some t → t.phase ≠ .spent →
      StepCase floorShare d w (.throws tickId)
        (w.modifyTick tickId fun t => ⟨t.id, t.attemptsMade + 1, .queued⟩)
  | failed (t : TickJob) (tickId : ℕ) : w.tick tickId = some t → t.phase ≠ .spent →
      StepCase floorShare d w (.throws tickId)
        { w.removeTick tickId with failed := tickId :: w.failed }
  | completed (t : TickJob) (tickId : ℕ) : w.tick tickId = some t → t.phase = .spent →
      StepCase floorShare d w (.complete tickId) (w.removeTick tickId)

/-- Every step is one of the branches. -/
theorem step_cases {floorShare : ℕ → ℕ → ℕ} {d : Dispatcher} {w w' : TickChain} {e : TickEvent}
    (h : step floorShare d w e = some w') : StepCase floorShare d w e w' := by
  cases e with
  | startRead thresholdPercent =>
    simp only [step] at h
    split at h
    · cases h
      exact .startRead _
    · cases h
  | startSave startId reads =>
    obtain ⟨s, hs, h⟩ := Option.bind_eq_some_iff.mp h
    split at h
    · cases h
    · split at h
      · cases h
        exact .started s _ _ hs ‹_›
      · cases h
        exact .notStarted s _ _
  | startAdd startId =>
    obtain ⟨s, hs, h⟩ := Option.bind_eq_some_iff.mp h
    split at h
    · cases h
      exact .startAdd s _ hs ‹_›
    · cases h
  | stop =>
    cases h
    exact .stopped
  | pick tickId =>
    obtain ⟨t, ht, h⟩ := Option.bind_eq_some_iff.mp h
    split at h
    · cases h
      exact .picked t _ ht ‹_›
    · cases h
  | readState tickId =>
    obtain ⟨t, ht, h⟩ := Option.bind_eq_some_iff.mp h
    split at h
    · rename_i hphase
      cases h
      cases hrow : w.row with
      | none => exact .readInactive t _ ht hphase (by simp [active, hrow])
      | some row =>
        by_cases hactive : row.active
        · simp only [hactive, ↓reduceIte]
          exact .readActive t _ _ ht hphase (by simp [active, hrow, hactive])
        · simp only [hactive, Bool.false_eq_true, ↓reduceIte]
          exact .readInactive t _ ht hphase (by simpa [active, hrow] using hactive)
    · cases h
  | decide tickId reads =>
    obtain ⟨t, ht, h⟩ := Option.bind_eq_some_iff.mp h
    split at h
    · rename_i hphase
      cases h
      split
      · exact .deactivated t _ _ _ ht hphase
      · exact .scheduled t _ _ _ ht hphase
    · cases h
  | throws tickId =>
    obtain ⟨t, ht, h⟩ := Option.bind_eq_some_iff.mp h
    split at h
    · cases h
    · cases h
    · split at h
      · cases h
        exact .requeued t _ ht ‹_›
      · cases h
        exact .failed t _ ht ‹_›
  | complete tickId =>
    obtain ⟨t, ht, h⟩ := Option.bind_eq_some_iff.mp h
    split at h
    · cases h
      exact .completed t _ ht ‹_›
    · cases h

/-- The ticks that are queued or have still to decide. -/
def pendingTicks (w : TickChain) : List TickJob := w.ticks.filter (·.phase ≠ .spent)

/-- A tick of the current cycle has failed its last attempt. -/
def cycleFailed (w : TickChain) : Bool :=
  w.row.any fun row => row.startedAt.any fun startedAt => w.failed.any (startedAt ≤ ·)

/-- No start and no tick is in the middle of its execution. -/
def settled (w : TickChain) : Prop := w.starts = [] ∧ ∀ t ∈ w.ticks, t.phase = .queued

/-- Starts that save their row as active only where no tick is queued or has still to decide, and
no other start has still to queue its tick. -/
def startsClear (d : Dispatcher) (w : TickChain) : TickEvent → Bool
  | .startSave _ reads => d.starts reads →
    w.pendingTicks = [] ∧ ∀ s ∈ w.starts, s.saved = false
  | _ => true

/-- Everything but the save of a start. -/
def savesNoStart : TickEvent → Bool
  | .startSave _ _ => false
  | _ => true

end TickChain

end Connections

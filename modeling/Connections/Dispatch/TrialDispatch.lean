import Connections.Library.JobQueue
import Connections.Library.Run
import Connections.Strategy.Entities
import Mathlib.Data.Finset.Card

/-!
# Dispatching the next trial

`triggerNextLlmTrial` on one puzzle and strategy, step by step: the advisory lock, the read of the
rows, each page of the two reads of the queue, and the decision.  Workers go on moving jobs and
writing rows in between.
-/

namespace Connections

open JobQueue

/-- The number and the model of a trial, from its row or from its job. -/
structure QueuedTrial where
  trialNumber : ℕ
  model : Option String
  deriving DecidableEq, Repr

/-- The jobs that one page of a queue read asks for. -/
def queuePageSize : ℕ := 1000

/-- The states of a job that no worker has taken. -/
def pendingStates : List JobState := [.waiting, .delayed, .prioritized, .paused]

/-- A read of the jobs in some states, page by page. -/
structure PageRead where
  trials : List QueuedTrial
  start : ℕ
  finished : Bool
  deriving DecidableEq, Repr

/-- A read that has seen no page yet. -/
def PageRead.fresh : PageRead := ⟨[], 0, false⟩

/-- A call that holds the advisory lock. -/
structure TrialCall where
  model : String
  date : String
  budgetTier : Option String
  existingRuns : Option (List QueuedTrial)
  pending : PageRead
  active : PageRead
  deriving DecidableEq, Repr

/-- The trial of a job, when it belongs to the puzzle and the strategy. -/
def trialOf (puzzleId : ℕ) (strategyName : String) : JobData → Option QueuedTrial
  | .runStrategy data =>
    if data.puzzleId = puzzleId ∧ data.strategyName = strategyName then
      some ⟨data.trialNumber, data.model⟩
    else none
  | .evaluateCategory _ => none

/-- The rows of one puzzle and strategy, its queue, the call that holds the lock, and the trials
that calls have queued so far. -/
structure TrialWorld where
  rows : List QueuedTrial
  queue : Queue String JobData
  call : Option TrialCall
  queued : List QueuedTrial

/-- What the call that holds the lock does; `abandon` is any error before its decision. -/
inductive CallStep
  | acquire (model date : String) (budgetTier : Option String)
  | readRows
  | readPending
  | readActive
  | conclude
  | abandon
  deriving DecidableEq, Repr

/-- What happens to jobs and rows next to the calls. -/
inductive WorkStep
  | start (id : String)
  | relocate (id : String) (state : JobState)
  | putBack (id : String) (state : JobState)
  | writeRow (id : String)
  | complete (id : String)
  | enqueueOther (id : String) (data : JobData)
  deriving DecidableEq, Repr

/-- What happens to a trial world. -/
inductive TrialEvent
  | call (e : CallStep)
  | work (e : WorkStep)
  deriving DecidableEq, Repr

/-- Bind a trial number to a model, in place of what it was bound to. -/
def setTrial (trials : List QueuedTrial) (trial : QueuedTrial) : List QueuedTrial :=
  trial :: trials.filter (·.trialNumber ≠ trial.trialNumber)

namespace TrialCall

/-- Everything a call has read so far. -/
def recorded (c : TrialCall) : List QueuedTrial :=
  c.existingRuns.getD [] ++ (c.pending.trials ++ c.active.trials)

/-- The trials by number: an active job wins over a pending one, and both over a row. -/
def trialModels (c : TrialCall) : List QueuedTrial := c.recorded.foldl setTrial []

/-- How many trials a call counts for its model. -/
def modelRunCount (c : TrialCall) : ℕ :=
  (c.trialModels.filter (·.model = some c.model)).length

/-- The number after the largest one a call has read. -/
def nextTrialNumber (c : TrialCall) : ℕ :=
  (c.trialModels.map (·.trialNumber)).foldl max 0 + 1

/-- What a call that has read everything decides: nothing for a model with a pending trial, an
error for a model at its cap, the next number otherwise. -/
def decision (c : TrialCall) (strategyName : String) (limit : ℕ) : Except String (Option ℕ) :=
  if c.pending.trials.any (·.model = some c.model) then .ok none
  else if limit ≤ c.modelRunCount then
    .error (s!"Model '{c.model}' has already reached its limit of {limit} trial(s) for " ++
      s!"strategy '{strategyName}' on this puzzle (see LLM_TRIALS_PER_MODEL).")
  else .ok (some c.nextTrialNumber)

/-- The job that a call queues. -/
def jobData (c : TrialCall) (puzzleId : ℕ) (strategyName : String) (trialNumber : ℕ) :
    RunStrategyJobData :=
  ⟨puzzleId, strategyName, c.date, trialNumber, some c.model, false, c.budgetTier⟩

end TrialCall

namespace TrialWorld

section Step

variable (puzzleId : ℕ) (strategyName : String) (limit : ℕ)

/-- Read one page of the jobs in some states; a short page is the last one. -/
def readPage (w : TrialWorld) (states : List JobState) (read : PageRead) : PageRead :=
  let jobs := w.queue.getJobs states read.start queuePageSize
  { trials := read.trials ++ jobs.filterMap (trialOf puzzleId strategyName ·.data)
    start := read.start + queuePageSize
    finished := decide (jobs.length < queuePageSize) }

/-- The end of a call that has read everything. -/
def conclude (w : TrialWorld) (c : TrialCall) : TrialWorld :=
  match c.decision strategyName limit with
  | .ok (some trialNumber) =>
    let id := runStrategyJobId puzzleId strategyName (some c.model) trialNumber
    { w with
      queue := w.queue.add id (.runStrategy (c.jobData puzzleId strategyName trialNumber)) .waiting
      call := none
      -- An id that the queue already knows leaves nothing queued.
      queued := if (w.queue.lookup id).isSome then w.queued
        else ⟨trialNumber, some c.model⟩ :: w.queued }
  | _ => { w with call := none }

/-- One step of a call. -/
def callStep (w : TrialWorld) : CallStep → Option TrialWorld
  | .acquire model date budgetTier =>
    match w.call with
    | none => some { w with call := some ⟨model, date, budgetTier, none, .fresh, .fresh⟩ }
    | some _ => none
  | .readRows => w.call.bind fun c =>
    if c.existingRuns = none then
      some { w with call := some { c with existingRuns := some w.rows } }
    else none
  | .readPending => w.call.bind fun c =>
    if c.existingRuns ≠ none ∧ c.pending.finished = false then
      let pending := w.readPage puzzleId strategyName pendingStates c.pending
      some { w with call := some { c with pending := pending } }
    else none
  | .readActive => w.call.bind fun c =>
    if c.existingRuns ≠ none ∧ c.active.finished = false then
      let active := w.readPage puzzleId strategyName [.active] c.active
      some { w with call := some { c with active := active } }
    else none
  | .conclude => w.call.bind fun c =>
    if c.pending.finished ∧ c.active.finished then
      some (w.conclude puzzleId strategyName limit c)
    else none
  | .abandon => w.call.map fun _ => { w with call := none }

/-- One step of a worker or of the queue itself. -/
def workStep (w : TrialWorld) : WorkStep → Option TrialWorld
  | .start id => (w.queue.lookup id).bind fun j =>
    if j.state = .waiting ∨ j.state = .prioritized then
      some { w with queue := w.queue.relist { j with state := .active } }
    else none
  | .relocate id state => (w.queue.lookup id).bind fun j =>
    if j.state.notStarted ∧ state.notStarted then
      some { w with queue := w.queue.relist { j with state := state } }
    else none
  | .putBack id state => (w.queue.lookup id).bind fun j =>
    if j.state = .active ∧ state.notStarted then
      some { w with queue := w.queue.relist { j with state := state } }
    else none
  | .writeRow id => (w.queue.lookup id).bind fun j =>
    if j.state = .active then
      (trialOf puzzleId strategyName j.data).bind fun trial =>
        match w.rows.find? (·.trialNumber = trial.trialNumber) with
        | none => some { w with rows := trial :: w.rows }
        -- A row of another model makes the job throw.
        | some row => if row.model = trial.model then some w else none
    else none
  | .complete id => (w.queue.lookup id).bind fun j =>
    if (trialOf puzzleId strategyName j.data).all (· ∈ w.rows) then
      (w.queue.complete removeOnCompleteCount id).map fun queue => { w with queue := queue }
    else none
  | .enqueueOther id data =>
    if trialOf puzzleId strategyName data = none then
      some { w with queue := w.queue.add id data .waiting }
    else none

/-- One step of a trial world. -/
def step (w : TrialWorld) : TrialEvent → Option TrialWorld
  | .call e => w.callStep puzzleId strategyName limit e
  | .work e => w.workStep puzzleId strategyName e

/-- The trials of the jobs in a list. -/
def trialsOf (jobs : List (Job String JobData)) : List QueuedTrial :=
  jobs.filterMap (trialOf puzzleId strategyName ·.data)

/-- The trials that a row or a live job stands for. -/
def trials (w : TrialWorld) : List QueuedTrial :=
  w.rows ++ trialsOf puzzleId strategyName (w.queue.jobs.filter (·.state.live))

/-- The distinct trial numbers of a model among the rows and the live jobs. -/
def trialNumbers (w : TrialWorld) (model : String) : Finset ℕ :=
  (((w.trials puzzleId strategyName).filter (·.model = some model)).map
    (·.trialNumber)).toFinset

/-- The trials that a read of some states still has to come to. -/
def unread (w : TrialWorld) (states : List JobState) (read : PageRead) : List QueuedTrial :=
  if read.finished then []
  else states.flatMap fun st =>
    trialsOf puzzleId strategyName ((w.queue.ofState st).drop read.start)

/-- A call has read a trial, or still has it ahead of it. -/
def sees (w : TrialWorld) (c : TrialCall) (trial : QueuedTrial) : Bool :=
  trial ∈ c.recorded ∨ (c.existingRuns = none ∧ trial ∈ w.rows) ∨
    trial ∈ w.unread puzzleId strategyName pendingStates c.pending ∨
    trial ∈ w.unread puzzleId strategyName [.active] c.active

/-- Steps that carry no trial past the reads of the call in progress: what a call has not read
yet stays among what it still has to read. -/
def carriesNothingPast (w : TrialWorld) : TrialEvent → Bool
  | .call _ => true
  | .work e => w.call.all fun c => (w.workStep puzzleId strategyName e).all fun w' =>
    (w.trials puzzleId strategyName).all fun trial =>
      !w.sees puzzleId strategyName c trial || w'.sees puzzleId strategyName c trial

end Step

section Cases

variable {puzzleId : ℕ} {strategyName : String} {limit : ℕ}

/-- What a step of a call does, with the guards that it passes. -/
inductive CallCase (puzzleId : ℕ) (strategyName : String) (limit : ℕ) (w : TrialWorld) :
    CallStep → TrialWorld → Prop
  | acquire (model date : String) (budgetTier : Option String) : w.call = none →
      CallCase puzzleId strategyName limit w (.acquire model date budgetTier)
        { w with call := some ⟨model, date, budgetTier, none, .fresh, .fresh⟩ }
  | readRows (c : TrialCall) : w.call = some c → c.existingRuns = none →
      CallCase puzzleId strategyName limit w .readRows
        { w with call := some { c with existingRuns := some w.rows } }
  | readPending (c : TrialCall) : w.call = some c → c.existingRuns ≠ none →
      c.pending.finished = false →
      CallCase puzzleId strategyName limit w .readPending
        { w with call := some { c with
          pending := w.readPage puzzleId strategyName pendingStates c.pending } }
  | readActive (c : TrialCall) : w.call = some c → c.existingRuns ≠ none →
      c.active.finished = false →
      CallCase puzzleId strategyName limit w .readActive
        { w with call := some { c with
          active := w.readPage puzzleId strategyName [.active] c.active } }
  | conclude (c : TrialCall) : w.call = some c → c.pending.finished → c.active.finished →
      CallCase puzzleId strategyName limit w .conclude (w.conclude puzzleId strategyName limit c)
  | abandon (c : TrialCall) : w.call = some c →
      CallCase puzzleId strategyName limit w .abandon { w with call := none }

/-- Every step of a call is one of the cases. -/
theorem callStep_cases {w w' : TrialWorld} {e : CallStep}
    (h : w.callStep puzzleId strategyName limit e = some w') :
    CallCase puzzleId strategyName limit w e w' := by
  cases e with
  | acquire model date budgetTier =>
    simp only [callStep] at h
    split at h
    · rename_i hnone
      cases h
      exact .acquire model date budgetTier hnone
    · cases h
  | readRows =>
    obtain ⟨c, hcall, h⟩ := Option.bind_eq_some_iff.mp h
    split at h
    · rename_i hnone
      cases h
      exact .readRows c hcall hnone
    · cases h
  | readPending =>
    obtain ⟨c, hcall, h⟩ := Option.bind_eq_some_iff.mp h
    split at h
    · rename_i hgoes
      cases h
      exact .readPending c hcall hgoes.1 hgoes.2
    · cases h
  | readActive =>
    obtain ⟨c, hcall, h⟩ := Option.bind_eq_some_iff.mp h
    split at h
    · rename_i hgoes
      cases h
      exact .readActive c hcall hgoes.1 hgoes.2
    · cases h
  | conclude =>
    obtain ⟨c, hcall, h⟩ := Option.bind_eq_some_iff.mp h
    split at h
    · rename_i hread
      cases h
      exact .conclude c hcall hread.1 hread.2
    · cases h
  | abandon =>
    obtain ⟨c, hcall, rfl⟩ := Option.map_eq_some_iff.mp h
    exact .abandon c hcall

/-- A call that has decided is over. -/
@[simp] theorem conclude_call (w : TrialWorld) (c : TrialCall) :
    (w.conclude puzzleId strategyName limit c).call = none := by
  unfold conclude
  split <;> rfl

end Cases

end TrialWorld

end Connections

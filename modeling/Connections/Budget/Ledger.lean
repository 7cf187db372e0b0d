import Connections.Library.Escrow
import Connections.Library.Run
import Connections.Strategy.Entities
import Mathlib.Logic.Function.Basic

/-!
# The free-tier budget over its transactions

The tables behind a tier's budget, what `committedTokens` reads of them, and every step of the
parties: a reserve transaction with its row lock and its separate reads, the call at the
provider, the flush with its settlement, lost workers, the judge, the operations that delete
runs, and the clock.
-/

namespace Connections

/-- The two free-tier programs. -/
inductive FreeTierId
  | flagship
  | mini
  deriving DecidableEq, Repr

/-- The daily token allowance of a tier. -/
def dailyLimitTokens : FreeTierId → ℕ
  | .flagship => 250000
  | .mini => 2500000

/-- The dispatch row of a tier, which a reserve transaction locks. -/
structure DispatchState where
  active : Bool
  thresholdPercent : ℕ
  deriving DecidableEq, Repr

/-- Whether a reservation waits for its call, or outlived one that reported no usage. -/
inductive ReservationStatus
  | pending
  | unrecorded
  deriving DecidableEq, Repr

/-- Tokens held for one call. -/
structure FreeTierReservation where
  id : ℕ
  tier : FreeTierId
  strategyRunId : ℕ
  reservedTokens : ℕ
  status : ReservationStatus
  createdAt : ℕ
  deriving DecidableEq, Repr

/-- The columns of a `SolvePrompt` row that usage is summed from. -/
structure PromptUsage where
  id : ℕ
  strategyRunId : ℕ
  totalTokens : Option ℕ
  createdAt : ℕ
  deriving DecidableEq, Repr

/-- The columns of a `CategoryEvaluation` row that usage is summed from. -/
structure EvaluationUsage where
  strategyRunId : ℕ
  judgeModel : String
  totalTokens : Option ℕ
  evaluatedAt : ℕ
  deriving DecidableEq, Repr

/-- The columns of a `StrategyRun` row that the budget looks at. -/
structure BudgetRun where
  id : ℕ
  strategyName : String
  modelName : Option String
  budgetTier : Option FreeTierId
  status : StrategyRunStatus
  deriving DecidableEq, Repr

/-- How far a reserve transaction has come. -/
inductive ReserveStep
  | begun
  | locked (threshold : ℕ)
  | readReservations (threshold reserved : ℕ)
  | readModels (threshold reserved since : ℕ) (prompts evaluations : Option ℕ)
  deriving DecidableEq, Repr

/-- Where the worker stands with a call. -/
inductive CallWorker
  | reserving (txStart : ℕ) (progress : ReserveStep)
  | refused
  | granted
  | sent
  | replied (reported : Option ℕ)
  | flushing (reported : Option ℕ) (txStart : ℕ)
  | flushed (reported : Option ℕ)
  | dead
  deriving DecidableEq, Repr

/-- Where the provider stands with a call. -/
inductive CallProvider
  | notSent
  | inFlight
  | billed (amount billedAt : ℕ)
  | closed
  deriving DecidableEq, Repr

/-- A budgeted call.  Its id is drawn when its reserve transaction begins; the reservation and
the prompt row of the call carry the same id. -/
structure Call where
  id : ℕ
  runId : ℕ
  tier : FreeTierId
  tokens : ℕ
  worker : CallWorker
  provider : CallProvider
  deriving DecidableEq, Repr

/-- The call with its worker moved on. -/
def Call.withWorker (c : Call) (worker : CallWorker) : Call := { c with worker := worker }

@[simp] theorem Call.withWorker_worker (c : Call) (worker : CallWorker) :
    (c.withWorker worker).worker = worker := rfl

/-- A call that may still be billed: the provider has it, or a worker is about to send it. -/
def Call.mayBeBilled (c : Call) : Bool :=
  match c.provider, c.worker with
  | .inFlight, _ => true
  | .notSent, .granted => true
  | _, _ => false

/-- What a call was billed since an instant, if it was. -/
def Call.billedSince (c : Call) (since : ℕ) : Option ℕ :=
  match c.provider with
  | .billed amount billedAt => if since ≤ billedAt then some amount else none
  | _ => none

/-- A call that counts against the day that began at `since`. -/
def Call.exposed (c : Call) (since : ℕ) : Bool := c.mayBeBilled || (c.billedSince since).isSome

/-- The tokens a call has been or may still be billed on the day that began at `since`. -/
def Call.due (c : Call) (since : ℕ) : ℕ :=
  if c.mayBeBilled then c.tokens else (c.billedSince since).getD 0

/-- The tables, the row locks, the calls in progress or past, and the clock. -/
structure Ledger where
  now : ℕ
  nextId : ℕ
  dispatch : FreeTierId → Option DispatchState
  lock : FreeTierId → Option ℕ
  runs : List BudgetRun
  reservations : List FreeTierReservation
  prompts : List PromptUsage
  evaluations : List EvaluationUsage
  calls : List Call
  /-- Runs that `deleteRun` has found not to be running. -/
  deleting : List ℕ

namespace Ledger

/-- Start of the ledger's current UTC day. -/
def today (l : Ledger) : ℕ := startOfTodayUtc l.now

/-- Outstanding reservations of a tier made since an instant. -/
def reservedTokens (l : Ledger) (tier : FreeTierId) (since : ℕ) : ℕ :=
  ((l.reservations.filter fun r => r.tier = tier ∧ since ≤ r.createdAt).map
    (·.reservedTokens)).sum

/-- Whether a prompt row belongs to a run on one of some models. -/
def onModels (l : Ledger) (models : List String) (p : PromptUsage) : Bool :=
  l.runs.any fun run => run.id = p.strategyRunId ∧ run.modelName ∈ models.map some

/-- Tokens recorded on the prompt rows of some models' runs since an instant. -/
def promptTokens (l : Ledger) (models : List String) (since : ℕ) : ℕ :=
  ((l.prompts.filter fun p => l.onModels models p ∧ since ≤ p.createdAt).map
    (·.totalTokens.getD 0)).sum

/-- Tokens recorded on the evaluations judged by some models since an instant. -/
def evaluationTokens (l : Ledger) (models : List String) (since : ℕ) : ℕ :=
  ((l.evaluations.filter fun e => e.judgeModel ∈ models ∧ since ≤ e.evaluatedAt).map
    (·.totalTokens.getD 0)).sum

/-- The recorded usage of some models since an instant. -/
def getUsage (l : Ledger) (models : List String) (since : ℕ) : ℕ :=
  if models = [] then 0 else l.promptTokens models since + l.evaluationTokens models since

/-- Outstanding reservations of the day and recorded usage of the day. -/
def committedTokens (l : Ledger) (models : FreeTierId → List String) (tier : FreeTierId) : ℕ :=
  l.reservedTokens tier l.today + l.getUsage (models tier) l.today

/-- What the tier's calls have been or may still be billed on the current day. -/
def dueTokens (l : Ledger) (tier : FreeTierId) : ℕ :=
  ((l.calls.filter (·.tier = tier)).map (·.due l.today)).sum

/-- What the tier's calls were billed on the current day. -/
def billedTokens (l : Ledger) (tier : FreeTierId) : ℕ :=
  ((l.calls.filter (·.tier = tier)).map fun c => (c.billedSince l.today).getD 0).sum

/-- Replace a call by its next state. -/
def setCall (l : Ledger) (c : Call) : Ledger :=
  { l with calls := l.calls.map fun k => if k.id = c.id then c else k }

/-- End a reserve transaction: its row lock goes. -/
def unlock (l : Ledger) (c : Call) : Ledger :=
  { l with lock := if l.lock c.tier = some c.id then Function.update l.lock c.tier none
      else l.lock }

end Ledger

/-- What happens to one call. -/
inductive CallEvent
  | lock
  | readReservations
  | readModels
  | readPrompts
  | readEvaluations
  | insert
  | abort
  | send
  | bill (amount : ℕ)
  | close
  | reply (reports : Bool)
  | beginFlush
  | commitFlush
  | die
  deriving DecidableEq, Repr

/-- What happens to the ledger. -/
inductive BudgetEvent
  | tick (ms : ℕ)
  | setDispatch (tier : FreeTierId) (state : Option DispatchState)
  | createRun (strategyName : String) (modelName : Option String)
      (budgetTier : Option FreeTierId)
  | setStatus (runId : ℕ) (status : StrategyRunStatus)
  | begin (runId tokens : ℕ)
  | call (id : ℕ) (event : CallEvent)
  | flushUnbudgeted (runId : ℕ) (totalTokens : Option ℕ)
  | evaluate (runId : ℕ) (judgeModel : String) (totalTokens : Option ℕ)
  | checkDelete (runId : ℕ)
  | deleteRun (runId : ℕ)
  | deleteErroredRuns (strategyName modelName : Option String)
  deriving DecidableEq, Repr

namespace Ledger

section Step

variable (floorShare : ℕ → ℕ → ℕ) (models : FreeTierId → List String)

/-- Settle a call's reservation: a recorded one is deleted, another one is kept. -/
def settleReservation (l : Ledger) (id : ℕ) (recorded : Bool) : List FreeTierReservation :=
  if recorded then l.reservations.filter (·.id ≠ id)
  else l.reservations.map fun r => if r.id = id then { r with status := .unrecorded } else r

/-- One step of a call.  `floorShare limit percent` is the threshold as the host's floating-point
arithmetic computes it. -/
def callStep (l : Ledger) (c : Call) : CallEvent → Option Ledger
  | .lock =>
    match c.worker, l.lock c.tier with
    | .reserving txStart .begun, none =>
      match l.dispatch c.tier with
      | some ⟨true, percent⟩ =>
        let threshold := floorShare (dailyLimitTokens c.tier) percent
        let l := { l with lock := Function.update l.lock c.tier (some c.id) }
        some (l.setCall (c.withWorker (.reserving txStart (.locked threshold))))
      | _ => some (l.setCall (c.withWorker .refused))
    | _, _ => none
  | .readReservations =>
    match c.worker with
    | .reserving txStart (.locked threshold) =>
      let reserved := l.reservedTokens c.tier l.today
      some (l.setCall (c.withWorker (.reserving txStart (.readReservations threshold reserved))))
    | _ => none
  | .readModels =>
    match c.worker with
    | .reserving txStart (.readReservations threshold reserved) =>
      -- A tier without models skips both queries.
      let read := if models c.tier = [] then some 0 else none
      let progress := .readModels threshold reserved l.today read read
      some (l.setCall (c.withWorker (.reserving txStart progress)))
    | _ => none
  | .readPrompts =>
    match c.worker with
    | .reserving txStart (.readModels threshold reserved since none evaluations) =>
      let prompts := some (l.promptTokens (models c.tier) since)
      let progress := .readModels threshold reserved since prompts evaluations
      some (l.setCall (c.withWorker (.reserving txStart progress)))
    | _ => none
  | .readEvaluations =>
    match c.worker with
    | .reserving txStart (.readModels threshold reserved since prompts none) =>
      let evaluations := some (l.evaluationTokens (models c.tier) since)
      let progress := .readModels threshold reserved since prompts evaluations
      some (l.setCall (c.withWorker (.reserving txStart progress)))
    | _ => none
  | .insert =>
    match c.worker with
    | .reserving txStart (.readModels threshold reserved _ (some prompts) (some evaluations)) =>
      -- The row's reference to its run fails when the run is gone.
      if reserved + (prompts + evaluations) + c.tokens ≤ threshold ∧
          l.runs.any (·.id = c.runId) then
        let l := { l.unlock c with
          reservations := ⟨c.id, c.tier, c.runId, c.tokens, .pending, txStart⟩ ::
            l.reservations }
        some (l.setCall (c.withWorker .granted))
      else some ((l.unlock c).setCall (c.withWorker .refused))
    | _ => none
  | .abort =>
    match c.worker with
    | .reserving _ _ => some ((l.unlock c).setCall (c.withWorker .refused))
    | _ => none
  | .send =>
    match c.worker with
    | .granted => some (l.setCall { c with worker := .sent, provider := .inFlight })
    | _ => none
  | .bill amount =>
    match c.provider with
    | .inFlight =>
      if amount ≤ c.tokens then some (l.setCall { c with provider := .billed amount l.now })
      else none
    | _ => none
  | .close =>
    match c.provider with
    | .inFlight => some (l.setCall { c with provider := .closed })
    | _ => none
  | .reply reports =>
    match c.worker, c.provider, reports with
    | .sent, .billed amount _, true => some (l.setCall (c.withWorker (.replied (some amount))))
    | .sent, _, false => some (l.setCall (c.withWorker (.replied none)))
    | _, _, _ => none
  | .beginFlush =>
    match c.worker with
    | .replied reported => some (l.setCall (c.withWorker (.flushing reported l.now)))
    | _ => none
  | .commitFlush =>
    match c.worker with
    | .flushing reported txStart =>
      if l.runs.any (·.id = c.runId) then
        let l := { l with
          reservations := l.settleReservation c.id reported.isSome
          prompts := ⟨c.id, c.runId, reported, txStart⟩ :: l.prompts }
        some (l.setCall (c.withWorker (.flushed reported)))
      else none
    | _ => none
  | .die =>
    match c.worker with
    | .refused | .flushed _ | .dead => none
    | _ => some ((l.unlock c).setCall (c.withWorker .dead))

/-- What one step of a call can do, branch by branch. -/
inductive CallCase (l : Ledger) (c : Call) : CallEvent → Ledger → Prop
  | locked (txStart percent : ℕ) : c.worker = .reserving txStart .begun → l.lock c.tier = none →
      l.dispatch c.tier = some ⟨true, percent⟩ →
      CallCase l c .lock ({ l with lock := Function.update l.lock c.tier (some c.id) }.setCall
        (c.withWorker (.reserving txStart
          (.locked (floorShare (dailyLimitTokens c.tier) percent)))))
  | inactive (txStart : ℕ) : c.worker = .reserving txStart .begun →
      CallCase l c .lock (l.setCall (c.withWorker .refused))
  | readReservations (txStart threshold : ℕ) : c.worker = .reserving txStart (.locked threshold) →
      CallCase l c .readReservations (l.setCall (c.withWorker (.reserving txStart
        (.readReservations threshold (l.reservedTokens c.tier l.today)))))
  | readModels (txStart threshold reserved : ℕ) (read : Option ℕ) :
      c.worker = .reserving txStart (.readReservations threshold reserved) →
      read = (if models c.tier = [] then some 0 else none) →
      CallCase l c .readModels (l.setCall (c.withWorker (.reserving txStart
        (.readModels threshold reserved l.today read read))))
  | readPrompts (txStart threshold reserved since : ℕ) (evaluations : Option ℕ) :
      c.worker = .reserving txStart (.readModels threshold reserved since none evaluations) →
      CallCase l c .readPrompts (l.setCall (c.withWorker (.reserving txStart
        (.readModels threshold reserved since (some (l.promptTokens (models c.tier) since))
          evaluations))))
  | readEvaluations (txStart threshold reserved since : ℕ) (prompts : Option ℕ) :
      c.worker = .reserving txStart (.readModels threshold reserved since prompts none) →
      CallCase l c .readEvaluations (l.setCall (c.withWorker (.reserving txStart
        (.readModels threshold reserved since prompts
          (some (l.evaluationTokens (models c.tier) since))))))
  | granted (txStart threshold reserved since prompts evaluations : ℕ) :
      c.worker = .reserving txStart
        (.readModels threshold reserved since (some prompts) (some evaluations)) →
      reserved + (prompts + evaluations) + c.tokens ≤ threshold →
      (∃ run ∈ l.runs, run.id = c.runId) →
      CallCase l c .insert ({ l.unlock c with
        reservations := ⟨c.id, c.tier, c.runId, c.tokens, .pending, txStart⟩ ::
          l.reservations }.setCall (c.withWorker .granted))
  | refused (txStart : ℕ) (progress : ReserveStep) (e : CallEvent) :
      c.worker = .reserving txStart progress →
      CallCase l c e ((l.unlock c).setCall (c.withWorker .refused))
  | sent : c.worker = .granted →
      CallCase l c .send (l.setCall { c with worker := .sent, provider := .inFlight })
  | billed (amount : ℕ) : c.provider = .inFlight → amount ≤ c.tokens →
      CallCase l c (.bill amount) (l.setCall { c with provider := .billed amount l.now })
  | closed : c.provider = .inFlight →
      CallCase l c .close (l.setCall { c with provider := .closed })
  | repliedUsage (amount billedAt : ℕ) : c.worker = .sent →
      c.provider = .billed amount billedAt →
      CallCase l c (.reply true) (l.setCall (c.withWorker (.replied (some amount))))
  | repliedSilent : c.worker = .sent →
      CallCase l c (.reply false) (l.setCall (c.withWorker (.replied none)))
  | flushBegun (reported : Option ℕ) : c.worker = .replied reported →
      CallCase l c .beginFlush (l.setCall (c.withWorker (.flushing reported l.now)))
  | flushed (reported : Option ℕ) (txStart : ℕ) : c.worker = .flushing reported txStart →
      (∃ run ∈ l.runs, run.id = c.runId) →
      CallCase l c .commitFlush ({ l with
        reservations := l.settleReservation c.id reported.isSome
        prompts := ⟨c.id, c.runId, reported, txStart⟩ :: l.prompts }.setCall
          (c.withWorker (.flushed reported)))
  | died : c.worker ≠ .refused → (∀ reported, c.worker ≠ .flushed reported) →
      CallCase l c .die ((l.unlock c).setCall (c.withWorker .dead))

/-- A call gets the lock of its tier with the threshold, or finds the tier inactive. -/
theorem lock_cases {l l' : Ledger} {c : Call}
    (h : callStep floorShare models l c .lock = some l') :
    CallCase floorShare models l c .lock l' := by
  simp only [callStep] at h
  split at h
  · split at h
    · cases h
      exact .locked _ _ ‹_› ‹_› ‹_›
    · cases h
      exact .inactive _ ‹_›
  · cases h

/-- A call that has read all is granted its reservation, or refused. -/
theorem insert_cases {l l' : Ledger} {c : Call}
    (h : callStep floorShare models l c .insert = some l') :
    CallCase floorShare models l c .insert l' := by
  simp only [callStep] at h
  split at h
  · split at h
    · rename_i hfits
      cases h
      exact .granted _ _ _ _ _ _ ‹_› hfits.1 (by simpa using hfits.2)
    · cases h
      exact .refused _ _ _ ‹_›
  · cases h

/-- A flush settles the reservation of a run that is still there. -/
theorem commitFlush_cases {l l' : Ledger} {c : Call}
    (h : callStep floorShare models l c .commitFlush = some l') :
    CallCase floorShare models l c .commitFlush l' := by
  simp only [callStep] at h
  split at h
  · split at h
    · rename_i hrun
      cases h
      exact .flushed _ _ ‹_› (by simpa using hrun)
    · cases h
  · cases h

/-- Every step of a call is one of the branches. -/
theorem callStep_cases {l l' : Ledger} {c : Call} {e : CallEvent}
    (h : callStep floorShare models l c e = some l') :
    CallCase floorShare models l c e l' := by
  cases e with
  | lock => exact lock_cases floorShare models h
  | readReservations =>
    simp only [callStep] at h
    split at h
    · cases h
      exact .readReservations _ _ ‹_›
    · cases h
  | readModels =>
    simp only [callStep] at h
    split at h
    · cases h
      exact .readModels _ _ _ _ ‹_› rfl
    · cases h
  | readPrompts =>
    simp only [callStep] at h
    split at h
    · cases h
      exact .readPrompts _ _ _ _ _ ‹_›
    · cases h
  | readEvaluations =>
    simp only [callStep] at h
    split at h
    · cases h
      exact .readEvaluations _ _ _ _ _ ‹_›
    · cases h
  | insert => exact insert_cases floorShare models h
  | abort =>
    simp only [callStep] at h
    split at h
    · cases h
      exact .refused _ _ _ ‹_›
    · cases h
  | send =>
    simp only [callStep] at h
    split at h
    · cases h
      exact .sent ‹_›
    · cases h
  | bill amount =>
    simp only [callStep] at h
    split at h
    · split at h
      · cases h
        exact .billed _ ‹_› ‹_›
      · cases h
    · cases h
  | close =>
    simp only [callStep] at h
    split at h
    · cases h
      exact .closed ‹_›
    · cases h
  | reply reports =>
    simp only [callStep] at h
    split at h
    · cases h
      exact .repliedUsage _ _ ‹_› ‹_›
    · cases h
      exact .repliedSilent ‹_›
    · cases h
  | beginFlush =>
    simp only [callStep] at h
    split at h
    · cases h
      exact .flushBegun _ ‹_›
    · cases h
  | commitFlush => exact commitFlush_cases floorShare models h
  | die =>
    simp only [callStep] at h
    split at h
    · cases h
    · cases h
    · cases h
    · rename_i hrefused hflushed hdead
      cases h
      exact .died hrefused hflushed

/-- Whether a run is among those to be deleted. -/
def dooms (l : Ledger) (doomed : BudgetRun → Bool) (runId : ℕ) : Bool :=
  l.runs.any fun run => run.id = runId && doomed run

/-- Delete some runs with every row that hangs on them. -/
def deleteRunTx (l : Ledger) (doomed : BudgetRun → Bool) : Ledger :=
  { l with
    runs := l.runs.filter fun run => !doomed run
    reservations := l.reservations.filter fun r => !l.dooms doomed r.strategyRunId
    prompts := l.prompts.filter fun p => !l.dooms doomed p.strategyRunId
    evaluations := l.evaluations.filter fun e => !l.dooms doomed e.strategyRunId }

/-- The errored runs that a bulk deletion asks for. -/
def matchesErrored (strategyName modelName : Option String) (run : BudgetRun) : Bool :=
  run.status = .error ∧ (strategyName.all fun name => run.strategyName = name) ∧
    (modelName.all fun name => run.modelName = some name)

/-- One step of the ledger; an event that cannot happen is refused. -/
def step (l : Ledger) : BudgetEvent → Option Ledger
  | .tick ms => some { l with now := l.now + ms }
  | .setDispatch tier state =>
    -- An update of the row waits for a reserve transaction that has it locked.
    if l.lock tier = none then some { l with dispatch := Function.update l.dispatch tier state }
    else none
  | .createRun strategyName modelName budgetTier =>
    -- A budgeted run is dispatched on a model of its tier.
    if (budgetTier.all fun tier => modelName ∈ (models tier).map some) then
      some { l with
        nextId := l.nextId + 1
        runs := ⟨l.nextId, strategyName, modelName, budgetTier, .running⟩ :: l.runs }
    else none
  | .setStatus runId status =>
    some { l with runs := l.runs.map fun run =>
      if run.id = runId then { run with status := status } else run }
  | .begin runId tokens =>
    (l.runs.find? (·.id = runId)).bind fun run => run.budgetTier.map fun tier =>
      { l with
        nextId := l.nextId + 1
        calls := ⟨l.nextId, runId, tier, tokens, .reserving l.now .begun, .notSent⟩ :: l.calls }
  | .call id event => (l.calls.find? (·.id = id)).bind fun c => callStep floorShare models l c event
  | .flushUnbudgeted runId totalTokens =>
    (l.runs.find? (·.id = runId)).bind fun run =>
      if run.budgetTier = none then
        some { l with
          nextId := l.nextId + 1
          prompts := ⟨l.nextId, runId, totalTokens, l.now⟩ :: l.prompts }
      else none
  | .evaluate runId judgeModel totalTokens =>
    some { l with evaluations := ⟨runId, judgeModel, totalTokens, l.now⟩ :: l.evaluations }
  | .checkDelete runId =>
    (l.runs.find? (·.id = runId)).bind fun run =>
      if run.status = .running then none else some { l with deleting := runId :: l.deleting }
  | .deleteRun runId =>
    if runId ∈ l.deleting then
      some { l.deleteRunTx (fun run => run.id = runId) with
        deleting := l.deleting.filter (· ≠ runId) }
    else none
  | .deleteErroredRuns strategyName modelName =>
    some (l.deleteRunTx (matchesErrored strategyName modelName))

end Step

end Ledger

end Connections

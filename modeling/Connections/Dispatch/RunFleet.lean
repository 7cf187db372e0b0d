import Connections.Dispatch.TrialDispatch

/-!
# The runs of a strategy and their queue

The rows of one LLM strategy, the queue that its runs ride, the dispatch calls on its puzzles, the
workers that execute active jobs, and the operations that put a run back on the queue: the daily
resume sweeps, the budget resume, the manual retry and the stale-run sweep.  Each of these loads
its runs once and then adds a job and saves the loaded entity run by run, while the workers go on.
-/

namespace Connections

open JobQueue

/-- What a job and a row have in common: a puzzle and a trial number. -/
structure RunKey where
  puzzleId : ℕ
  trialNumber : ℕ
  deriving DecidableEq, Repr

/-- The key of a run's row. -/
def StrategyRun.key (run : StrategyRun) : RunKey := ⟨run.puzzleId, run.trialNumber⟩

/-- The entity of a run that a flush leaves running.  A worker that took up a parked run has
cleared the finish that the park set; one that found the run running keeps what the row holds. -/
def StrategyRun.flushed (run : StrategyRun) (availableWords : List String) : StrategyRun :=
  let finishedAt := if run.status = .rateLimitedDaily then none else run.finishedAt
  { run with status := .running, finishedAt := finishedAt, availableWords := availableWords }

/-- The entity of a run that waits for the next day. -/
def StrategyRun.parked (run : StrategyRun) (now : ℕ) : StrategyRun :=
  { run with status := .rateLimitedDaily, finishedAt := some now }

/-- The entity of a run that has ended. -/
def StrategyRun.finished (run : StrategyRun) (now : ℕ) (status : StrategyRunStatus)
    (availableWords : List String) : StrategyRun :=
  { run with status := status, finishedAt := some now, availableWords := availableWords }

/-- A worker process with an active job. -/
structure JobWorker where
  jobId : String
  run : Option StrategyRun
  /-- The run has ended or is parked, and the handler is about to return. -/
  done : Bool
  deriving DecidableEq, Repr

/-- The operations that put runs back on the queue. -/
inductive ResumeKind
  | modelPool
  | accountPool
  | budget
  | manualRetry
  | sweep
  deriving DecidableEq, Repr

/-- An operation in progress over the entities it loaded. -/
structure ResumeOp where
  id : ℕ
  kind : ResumeKind
  stamp : String
  todo : List StrategyRun
  /-- The first run is between its two halves: its job added and its row not yet saved, or the
  other way round for a manual retry. -/
  half : Bool
  /-- What a worker last wrote to the first run since its job was added. -/
  written : Option (StrategyRunStatus × List String)
  deriving DecidableEq, Repr

/-- The worker roles. -/
inductive WorkerRole
  | all
  | cloud
  | ollama
  deriving DecidableEq, Repr

/-- One strategy's rows and queue, the dispatch calls in progress by puzzle, its workers, the
operations in progress, and the failed jobs whose runs are still to be marked. -/
structure RunFleet where
  now : ℕ
  nextId : ℕ
  runs : List StrategyRun
  queue : Queue String JobData
  calls : List (ℕ × TrialCall)
  workers : List JobWorker
  ops : List ResumeOp
  failing : List RunKey

/-- What happens to a fleet. -/
inductive FleetEvent
  | tick (ms : ℕ)
  | call (puzzleId : ℕ) (e : CallStep)
  | pick (jobId : String)
  | promote (jobId : String)
  | load (jobId : String) (allWords : List String) (contextWindow : Option ℕ)
  | flush (jobId : String) (availableWords : List String)
  | park (jobId : String)
  | finish (jobId : String) (status : StrategyRunStatus) (availableWords : List String)
  | complete (jobId : String)
  | throws (jobId : String)
  | markFailed (key : RunKey)
  | crash (jobId : String)
  | stall (jobId : String)
  | beginResume (triggerJobId : String) (held : List String)
  | beginBudgetResume (budgetTier : String) (models : List String) (limit : ℕ)
  | beginRetry (runId : ℕ)
  | beginSweep (role : WorkerRole)
  | opStep (opId : ℕ)
  | opFail (opId : ℕ)
  | deleteRun (runId : ℕ)
  deriving DecidableEq, Repr

/-- What a fleet takes from outside its tables: the strategy, the cap on a model's trials, the
calendar date of an instant in a time zone, and the date of a puzzle. -/
structure FleetEnv where
  strategyName : String
  limit : ℕ
  dateStampInTz : String → ℕ → String
  puzzleDate : ℕ → String

/-- A running row untouched for an hour counts as stale. -/
def staleRunThresholdMs : ℕ := 60 * 60000

/-- The ending that an operation's job ids carry. -/
def ResumeKind.suffix : ResumeKind → String
  | .modelPool | .accountPool => "resume"
  | .budget => "budget-resume"
  | .manualRetry => "manual-retry"
  | .sweep => "sweep"

/-- Operations that save the entity after they added its job. -/
def ResumeKind.savesAfterAdd : ResumeKind → Bool
  | .modelPool | .accountPool | .budget => true
  | .manualRetry | .sweep => false

/-- Whether an operation's next half adds the job of its first run; otherwise it saves the run. -/
def ResumeOp.adds (op : ResumeOp) : Bool :=
  match op.kind with
  | .manualRetry => op.half
  | .sweep => true
  | .modelPool | .accountPool | .budget => !op.half

/-- Whether an operation's next half is the last one for its first run. -/
def ResumeOp.lastHalf (op : ResumeOp) : Bool :=
  match op.kind with
  | .sweep => true
  | _ => op.half

/-- An operation after its next half. -/
def ResumeOp.next (op : ResumeOp) : ResumeOp :=
  if op.lastHalf then { op with todo := op.todo.tail, half := false, written := none }
  else { op with half := true, written := none }

/-- The entity as an operation saves it. -/
def ResumeKind.resumed (kind : ResumeKind) (run : StrategyRun) : StrategyRun :=
  match kind with
  | .budget | .manualRetry => { run with status := .running, finishedAt := none }
  | _ => { run with status := .running }

namespace RunFleet

/-- The row of a key. -/
def row (w : RunFleet) (key : RunKey) : Option StrategyRun := w.runs.find? (·.key = key)

/-- A row after an entity was saved over it: every column that differs is written, with a fresh
`updatedAt` unless the entity's own one differs too. -/
def savedRow (now : ℕ) (entity row : StrategyRun) : StrategyRun :=
  if row = entity ∨ row.updatedAt ≠ entity.updatedAt then entity
  else { entity with updatedAt := now }

/-- Save an entity as the ORM does, over the row as it is now; a missing row is inserted. -/
def save (w : RunFleet) (entity : StrategyRun) : RunFleet :=
  if w.runs.any (·.id = entity.id) then
    { w with runs := w.runs.map fun row =>
      if row.id = entity.id then savedRow w.now entity row else row }
  else { w with runs := { entity with updatedAt := w.now } :: w.runs }

/-- Note a worker's write in the operations that have added a job for the run. -/
def noteWrite (w : RunFleet) (entity : StrategyRun) : RunFleet :=
  { w with ops := w.ops.map fun op =>
    if op.half ∧ (op.todo.head?.any fun run => run.id = entity.id) then
      { op with written := some (entity.status, entity.availableWords) }
    else op }

/-- A worker saves its entity and reads back what the save generated. -/
def workerSave (w : RunFleet) (jobId : String) (entity : StrategyRun) (done : Bool) : RunFleet :=
  let w := (w.save entity).noteWrite entity
  let saved : JobWorker := ⟨jobId, w.runs.find? (·.id = entity.id), done⟩
  { w with workers := w.workers.map fun k => if k.jobId = jobId then saved else k }

/-- The entity that a job's worker goes on with. -/
def workerRun (w : RunFleet) (jobId : String) : Option StrategyRun :=
  (w.workers.find? (·.jobId = jobId)).bind fun worker => if worker.done then none else worker.run

/-- A worker has loaded its run; a run that has ended leaves it nothing to do. -/
def workerLoad (w : RunFleet) (jobId : String) (run : StrategyRun) : RunFleet :=
  let loaded : JobWorker := ⟨jobId, some run, decide (run.status ∈ terminalStatuses)⟩
  { w with workers := w.workers.map fun k => if k.jobId = jobId then loaded else k }

/-- A worker changes its entity and saves it. -/
def workerStep (w : RunFleet) (jobId : String) (change : StrategyRun → StrategyRun)
    (done : Bool) : Option RunFleet :=
  (w.workerRun jobId).map fun run => w.workerSave jobId (change run) done

/-- The run to mark when a job has failed, with its mark. -/
def failedRun (w : RunFleet) (key : RunKey) : Option StrategyRun :=
  (w.row key).bind fun run =>
    if run.status = .running then some (run.finished w.now .failed run.availableWords) else none

/-- Remove the worker of a job. -/
def dismiss (w : RunFleet) (jobId : String) : RunFleet :=
  { w with workers := w.workers.filter (·.jobId ≠ jobId) }

/-- The call that holds a puzzle's lock. -/
def callOn (w : RunFleet) (puzzleId : ℕ) : Option TrialCall :=
  (w.calls.find? (·.1 = puzzleId)).map (·.2)

/-- One puzzle of a fleet, as a call on it sees it. -/
def trialWorld (w : RunFleet) (puzzleId : ℕ) : TrialWorld where
  rows := (w.runs.filter (·.puzzleId = puzzleId)).map fun run => ⟨run.trialNumber, run.modelName⟩
  queue := w.queue
  call := w.callOn puzzleId
  queued := []

/-- Replace the call on a puzzle. -/
def setCall (w : RunFleet) (puzzleId : ℕ) (call : Option TrialCall) : RunFleet :=
  let others := w.calls.filter (·.1 ≠ puzzleId)
  { w with calls := (call.map fun c => (puzzleId, c)).toList ++ others }

/-- Replace an operation by its next state. -/
def setOp (w : RunFleet) (op : ResumeOp) : RunFleet :=
  { w with ops := w.ops.map fun o => if o.id = op.id then op else o }

/-- End an operation. -/
def endOp (w : RunFleet) (opId : ℕ) : RunFleet := { w with ops := w.ops.filter (·.id ≠ opId) }

/-- An operation loads its runs. -/
def beginOp (w : RunFleet) (kind : ResumeKind) (stamp : String) (todo : List StrategyRun) :
    RunFleet :=
  { w with nextId := w.nextId + 1, ops := ⟨w.nextId, kind, stamp, todo, false, none⟩ :: w.ops }

section Step

variable (env : FleetEnv)

/-- The key of the run that a job of the strategy executes. -/
def jobKey : JobData → Option RunKey
  | .runStrategy data =>
    if data.strategyName = env.strategyName then some ⟨data.puzzleId, data.trialNumber⟩ else none
  | .evaluateCategory _ => none

/-- The row that a worker creates for a job without one. -/
def createdRun (w : RunFleet) (data : RunStrategyJobData) (allWords : List String)
    (contextWindow : Option ℕ) : StrategyRun where
  id := w.nextId
  puzzleId := data.puzzleId
  strategyName := env.strategyName
  trialNumber := data.trialNumber
  status := .running
  availableWords := allWords
  currentCombination := firstCombination groupSize
  modelName := data.model
  contextWindow := contextWindow
  budgetTier := data.budgetTier
  startedAt := w.now
  updatedAt := w.now
  finishedAt := none

/-- The strategy's runs on a status. -/
def withStatus (w : RunFleet) (status : StrategyRunStatus) : List StrategyRun :=
  w.runs.filter (·.status = status)

/-- The daily resume of a pool: model by model, or the account as a whole. -/
def resumeKind (freeTier : FreeTierConfig) : ResumeKind :=
  match freeTier.holdScope with
  | .model => .modelPool
  | .account => .accountPool

/-- The stamp of a daily resume's job ids: a date in the zone of a fixed cron, or the id of the
job that triggered the sweep, which the account-wide sweep leaves empty. -/
def resumeStamp (now : ℕ) (freeTier : FreeTierConfig) (triggerJobId : String) : String :=
  match freeTier.resetSchedule, freeTier.holdScope with
  | .fixedCron _ tz, _ => env.dateStampInTz tz now
  | .selfRearm _, .model => triggerJobId
  | .selfRearm _, .account => ""

/-- The parked runs that a daily sweep takes up: those with a model that is not held, or all of
them once the account is not held. -/
def resumeTodo (w : RunFleet) (freeTier : FreeTierConfig) (held : List String) :
    List StrategyRun :=
  match freeTier.holdScope with
  | .model => (w.withStatus .rateLimitedDaily).filter fun run =>
      run.modelName.any fun model => model ≠ "" ∧ model ∉ held
  | .account => if held = [] then w.withStatus .rateLimitedDaily else []

/-- The parked budgeted runs that a tick takes up, oldest first. -/
def budgetParked (w : RunFleet) (budgetTier : String) (models : List String) (limit : ℕ) :
    List StrategyRun :=
  (((w.withStatus .rateLimitedDaily).filter fun run =>
    run.budgetTier = some budgetTier ∧ run.modelName ∈ models.map some).mergeSort
      fun a b => a.startedAt ≤ b.startedAt).take limit

/-- The run of a manual retry, which has to be in error. -/
def erroredRun (w : RunFleet) (runId : ℕ) : Option StrategyRun :=
  (w.withStatus .error).find? (·.id = runId)

/-- The running rows that nothing has touched for an hour. -/
def staleRuns (w : RunFleet) : List StrategyRun :=
  (w.withStatus .running).filter fun run => run.updatedAt < w.now - staleRunThresholdMs

/-- Whether a role's process sweeps the strategy's queue. -/
def sweepOwns (role : WorkerRole) : Bool :=
  let isOllama := queueForStrategy env.strategyName = ProviderPoolId.ollama.runsQueue
  match role with
  | .all => true
  | .ollama => isOllama
  | .cloud => !isOllama

/-- The stale runs that a sweep of a role takes up. -/
def sweepTodo (w : RunFleet) (role : WorkerRole) : List StrategyRun :=
  if sweepOwns env role then w.staleRuns else []

/-- The id of the job that an operation adds for a run; two operations stamp it at the add. -/
def resumeJobId (now : ℕ) (op : ResumeOp) (run : StrategyRun) : String :=
  let stamp := match op.kind with
    | .budget | .manualRetry => toString now
    | _ => op.stamp
  runStrategyJobId run.puzzleId run.strategyName run.modelName run.trialNumber ++
    s!"-{op.kind.suffix}-{stamp}"

/-- The job that an operation adds for a run. -/
def resumeJobData (op : ResumeOp) (run : StrategyRun) : RunStrategyJobData :=
  ⟨run.puzzleId, run.strategyName, env.puzzleDate run.puzzleId, run.trialNumber, run.modelName,
    decide (op.kind = .manualRetry), none⟩

/-- An operation adds the job of a run. -/
def addResumeJob (w : RunFleet) (op : ResumeOp) (run : StrategyRun) : RunFleet :=
  let data := resumeJobData env op run
  { w with queue := w.queue.add (resumeJobId w.now op run) (.runStrategy data) .waiting }

/-- The next half of an operation on its first run. -/
def opStep (w : RunFleet) (op : ResumeOp) : RunFleet :=
  match op.todo with
  | [] => w.endOp op.id
  | run :: _ =>
    let w := if op.adds then w.addResumeJob env op run else w.save (op.kind.resumed run)
    w.setOp op.next

/-- An operation's query or add throws: the account-wide sweep goes on with the next run, any
other operation ends. -/
def opFail (w : RunFleet) (op : ResumeOp) : RunFleet :=
  match op.kind, op.todo with
  | .accountPool, _ :: rest => w.setOp { op with todo := rest, half := false, written := none }
  | _, _ => w.endOp op.id

/-- One step of a fleet; an event that cannot happen is refused. -/
def step (w : RunFleet) : FleetEvent → Option RunFleet
  | .tick ms => some { w with now := w.now + ms }
  | .call puzzleId e =>
    ((w.trialWorld puzzleId).callStep puzzleId env.strategyName env.limit e).map fun world =>
      { w.setCall puzzleId world.call with queue := world.queue }
  | .pick jobId => (w.queue.lookup jobId).bind fun j =>
    if j.state = .waiting ∨ j.state = .prioritized then
      some { w with
        queue := w.queue.relist { j with state := .active }
        workers := ⟨jobId, none, false⟩ :: w.workers }
    else none
  | .promote jobId => (w.queue.move jobId .delayed .waiting).map fun queue =>
    { w with queue := queue }
  | .load jobId allWords contextWindow =>
    (w.queue.lookup jobId).bind fun j => (w.workers.find? (·.jobId = jobId)).bind fun worker =>
      match worker.run, j.data with
      | none, .runStrategy data =>
        if data.strategyName ≠ env.strategyName then none
        else match w.row ⟨data.puzzleId, data.trialNumber⟩ with
          | some run =>
            -- A row of another model makes the job throw.
            if run.modelName ≠ data.model then none else some (w.workerLoad jobId run)
          | none =>
            let run := w.createdRun env data allWords contextWindow
            let w := { w with nextId := w.nextId + 1, runs := run :: w.runs }
            some (w.workerLoad jobId run)
      | _, _ => none
  | .flush jobId availableWords => w.workerStep jobId (·.flushed availableWords) false
  | .park jobId => w.workerStep jobId (·.parked w.now) true
  | .finish jobId status availableWords =>
    if status ∈ terminalStatuses then
      w.workerStep jobId (·.finished w.now status availableWords) true
    else none
  | .complete jobId => (w.workers.find? (·.jobId = jobId)).bind fun worker =>
    if worker.done then
      (w.queue.complete removeOnCompleteCount jobId).map fun queue =>
        { w.dismiss jobId with queue := queue }
    else none
  | .throws jobId => (w.workers.find? (·.jobId = jobId)).bind fun _ =>
    (w.queue.lookup jobId).bind fun j =>
      (w.queue.failAttempt queueAttempts removeOnFailCount jobId).map fun queue =>
        -- The event that marks the run fires on every failed attempt.
        { w.dismiss jobId with
          queue := queue
          failing := (jobKey env j.data).toList ++ w.failing }
  | .markFailed key =>
    if key ∈ w.failing then
      let w := { w with failing := w.failing.erase key }
      some (match w.failedRun key with
        | some entity => (w.save entity).noteWrite entity
        | none => w)
    else none
  | .crash jobId => (w.workers.find? (·.jobId = jobId)).map fun _ => w.dismiss jobId
  | .stall jobId =>
    if w.workers.any (·.jobId = jobId) then none
    else (w.queue.move jobId .active .waiting).map fun queue => { w with queue := queue }
  | .beginResume triggerJobId held =>
    ((providerPool env.strategyName).bind ProviderPoolId.freeTier).map fun freeTier =>
      w.beginOp (resumeKind freeTier) (resumeStamp env w.now freeTier triggerJobId)
        (w.resumeTodo freeTier held)
  | .beginBudgetResume budgetTier models limit =>
    some (w.beginOp .budget "" (w.budgetParked budgetTier models limit))
  | .beginRetry runId => (w.erroredRun runId).map fun run => w.beginOp .manualRetry "" [run]
  | .beginSweep role =>
    some (w.beginOp .sweep (env.dateStampInTz "UTC" w.now) (w.sweepTodo env role))
  | .opStep opId => (w.ops.find? (·.id = opId)).map (w.opStep env)
  | .opFail opId => (w.ops.find? (·.id = opId)).map w.opFail
  | .deleteRun runId => (w.runs.find? (·.id = runId)).bind fun run =>
    if run.status = .running then none
    else some { w with runs := w.runs.filter (·.id ≠ runId) }

end Step

end RunFleet

end Connections

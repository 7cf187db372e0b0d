import Connections.Judge.CategoryEvaluator
import Connections.Library.JobQueue
import Connections.Library.KeyedTable
import Connections.Library.Run
import Mathlib.Data.Rat.Floor

/-!
# The category judge at work

The stored proposals, their evaluations, the queue of the judge's provider, the dispatches in
progress and the workers with a judge job.  A worker reads the evaluation of its proposal, loads the
proposal, calls the model and saves; dispatches, deletions and other workers go on in between.
-/

namespace Connections

open JobQueue KeyedTable

/-- What the judge says about a category. -/
inductive CategoryEvalVerdict
  | correct
  | partially
  | lucky
  deriving DecidableEq, Repr

/-- Whether the judge call gave a verdict. -/
inductive CategoryEvalStatus
  | judged
  | callError
  deriving DecidableEq, Repr

/-- The columns of an evaluation besides its id and its proposal. -/
structure CategoryEvaluation where
  strategyRunId : ℕ
  answerGroupId : ℕ
  verdict : Option CategoryEvalVerdict
  rationale : Option String
  proposedCategory : String
  actualCategory : String
  status : CategoryEvalStatus
  evaluatorVersion : ℕ
  judgeModel : String
  judgeProvider : String
  requestBody : Option Json
  statusCode : Option ℕ
  errorName : Option String
  errorMessage : Option String
  isRetryable : Option Bool
  promptTokens : Option ℕ
  completionTokens : Option ℕ
  totalTokens : Option ℕ
  reasoningTokens : Option ℕ
  latencyMs : Option ℕ
  temperature : Option ℕ
  evaluatedAt : ℕ

/-- The version of the judge's prompt. -/
def evaluatorVersion : ℕ := 1

/-- A verdict of the orchestrator. -/
structure JudgeCategorySuccess where
  verdict : CategoryEvalVerdict
  rationale : String
  model : String
  latencyMs : ℕ
  usage : Option SolveUsage
  requestBody : Option Json

/-- How a judge call ended. -/
inductive JudgeCategoryOutcome
  | ok (data : JudgeCategorySuccess)
  | error (failure : SolveStepFailure)

/-- What judging one proposal came to. -/
inductive EvaluateProposalResult
  | judged
  | callError
  | skipped (reason : String)
  deriving DecidableEq, Repr

/-- A stored proposal with the guess it became. -/
structure StoredProposal where
  id : ℕ
  proposal : LlmProposal
  guess : Option Guess
  deriving DecidableEq, Repr

/-- The join of the judge's queries: a used proposal with a successful guess. -/
def StoredProposal.eligible (row : StoredProposal) : Bool :=
  row.proposal.status = .used && row.guess.any (·.result = .success)

/-- The proposals, newest first, under ids that are never given out again. -/
structure ProposalTable where
  rows : List StoredProposal
  nextId : ℕ
  newest_first : rows.Pairwise (·.id > ·.id)
  ids_lt : ∀ row ∈ rows, row.id < nextId

namespace ProposalTable

/-- No proposals. -/
def empty : ProposalTable := ⟨[], 0, List.Pairwise.nil, by simp⟩

/-- The proposal of an id. -/
def lookup (t : ProposalTable) (id : ℕ) : Option StoredProposal := t.rows.find? (·.id = id)

/-- Store a proposal. -/
def add (t : ProposalTable) (proposal : LlmProposal) (guess : Option Guess) : ProposalTable where
  rows := ⟨t.nextId, proposal, guess⟩ :: t.rows
  nextId := t.nextId + 1
  newest_first := List.pairwise_cons.mpr ⟨fun row hrow => t.ids_lt row hrow, t.newest_first⟩
  ids_lt := by
    rintro row (_ | ⟨_, hrow⟩)
    · exact Nat.lt_succ_self _
    · exact Nat.lt_succ_of_lt (t.ids_lt row hrow)

/-- Keep the proposals that satisfy a test. -/
def filter (t : ProposalTable) (p : StoredProposal → Bool) : ProposalTable where
  rows := t.rows.filter p
  nextId := t.nextId
  newest_first := t.newest_first.sublist List.filter_sublist
  ids_lt := fun row h => t.ids_lt row (List.mem_of_mem_filter h)

/-- An id has one proposal. -/
theorem eq_of_id_eq (t : ProposalTable) {a b : StoredProposal} (ha : a ∈ t.rows) (hb : b ∈ t.rows)
    (h : a.id = b.id) : a = b := by
  have hnodup : (t.rows.map (·.id)).Nodup :=
    List.pairwise_map.mpr (t.newest_first.imp fun hgt => Nat.ne_of_gt hgt)
  exact List.inj_on_of_nodup_map hnodup ha hb h

theorem lookup_eq_some {t : ProposalTable} {id : ℕ} {row : StoredProposal} :
    t.lookup id = some row ↔ row ∈ t.rows ∧ row.id = id := by
  constructor
  · intro h
    exact ⟨List.mem_of_find?_eq_some h, by simpa using List.find?_some h⟩
  · rintro ⟨hmem, rfl⟩
    cases h : t.lookup row.id with
    | none => exact absurd (decide_eq_true rfl) (List.find?_eq_none.mp h row hmem)
    | some other =>
      have hother : other ∈ t.rows := List.mem_of_find?_eq_some h
      have hid : other.id = row.id := by simpa using List.find?_some h
      rw [t.eq_of_id_eq hother hmem hid]

end ProposalTable

/-- Two job kinds share the queue. -/
inductive JudgeJobData
  | evaluateCategory (llmProposalId : ℕ) (force : Bool)
  | runStrategy (data : RunStrategyJobData)
  deriving DecidableEq, Repr

/-- The id of a judge job. -/
def categoryEvalJobId (llmProposalId : ℕ) : String := s!"cat-eval-{llmProposalId}"

/-- The id that a dispatch gives its job; a forced one carries the time. -/
def judgeJobId (force : Bool) (now llmProposalId : ℕ) : String :=
  if force then s!"{categoryEvalJobId llmProposalId}-{now}" else categoryEvalJobId llmProposalId

/-- Where the judging of a proposal stands. -/
inductive JudgePhase
  | started
  | checked (existing : Option ℕ)
  | calling (existing : Option ℕ) (row : StoredProposal) (proposedCategory : String)
      (group : AnswerGroup)
  | done (result : EvaluateProposalResult)

/-- The evaluation that a worker has read before. -/
def JudgePhase.existing : JudgePhase → Option ℕ
  | .checked existing => existing
  | .calling existing _ _ _ => existing
  | .started | .done _ => none

/-- A worker with an active judge job. -/
structure JudgeWorker where
  jobId : String
  llmProposalId : ℕ
  force : Bool
  phase : JudgePhase

/-- A dispatch with the proposals it still has to add jobs for. -/
structure JudgeDispatch where
  force : Bool
  todo : List ℕ
  deriving DecidableEq, Repr

/-- What the judge takes from outside its tables: the stored puzzles, the id and the name of each
of their groups, and the model that judges. -/
structure JudgeEnv where
  upper : UpperCase
  puzzle : ℕ → Option Puzzle
  groupRow : ℕ → AnswerGroup → ℕ × String
  judgeModel : String
  judgeProvider : String

/-- The judge's tables, queue, dispatches and workers. -/
structure JudgeFleet where
  now : ℕ
  proposals : ProposalTable
  evaluations : Table ℕ CategoryEvaluation
  queue : Queue String JudgeJobData
  dispatches : List JudgeDispatch
  workers : List JudgeWorker

/-- What happens around the judge. -/
inductive JudgeEvent
  | tick (ms : ℕ)
  | record (proposal : LlmProposal) (guess : Option Guess)
  | dispatch (limit : Option ℚ) (force : Bool)
  | add (call : ℕ)
  | addFails (call : ℕ)
  | addRun (jobId : String) (data : RunStrategyJobData)
  | pick (jobId : String)
  | promote (jobId : String)
  | findEvaluation (jobId : String)
  | loadProposal (jobId : String)
  | save (jobId : String) (outcome : JudgeCategoryOutcome)
  | complete (jobId : String)
  | throws (jobId : String)
  | completeRun (jobId : String)
  | throwRun (jobId : String)
  | crash (jobId : String)
  | stall (jobId : String)
  | deleteRun (runId : ℕ)
  | deleteProposals (ids : List ℕ)
  | deleteRunEvaluations (runId : ℕ)
  | deleteFailedEvaluations

/-- How many proposals a dispatch asks for when it names no number, and the most it may. -/
def defaultLimit : ℕ := 50
def maxLimit : ℕ := 500

/-- The number of proposals of a dispatch; a limit that is not a finite number is none. -/
def clampLimit (limit : Option ℚ) : ℕ :=
  match limit with
  | some raw => (min (maxLimit : ℤ) (max 1 raw.floor)).toNat
  | none => defaultLimit

/-- How much of the backlog is judged. -/
structure CategoryEvaluationCoverage where
  eligible : ℤ
  judged : ℤ
  pending : ℤ
  deriving DecidableEq, Repr

section Columns

variable (env : JudgeEnv)

/-- The columns that a judge call leaves. -/
def evaluationColumns (row : StoredProposal) (proposedCategory : String) (group : AnswerGroup)
    (outcome : JudgeCategoryOutcome) (now : ℕ) : CategoryEvaluation :=
  let groupRow := env.groupRow (row.guess.elim 0 (·.puzzleId)) group
  match outcome with
  | .ok data =>
    { strategyRunId := row.proposal.strategyRunId
      answerGroupId := groupRow.1
      verdict := some data.verdict
      rationale := some data.rationale
      proposedCategory := proposedCategory
      actualCategory := groupRow.2
      status := .judged
      evaluatorVersion := evaluatorVersion
      judgeModel := if data.model = "" then env.judgeModel else data.model
      judgeProvider := env.judgeProvider
      requestBody := data.requestBody
      statusCode := none
      errorName := none
      errorMessage := none
      isRetryable := none
      promptTokens := data.usage.map (·.promptTokens)
      completionTokens := data.usage.map (·.completionTokens)
      totalTokens := data.usage.map (·.totalTokens)
      reasoningTokens := data.usage.bind (·.reasoningTokens)
      latencyMs := some data.latencyMs
      temperature := some 0
      evaluatedAt := now }
  | .error failure =>
    { strategyRunId := row.proposal.strategyRunId
      answerGroupId := groupRow.1
      verdict := none
      rationale := none
      proposedCategory := proposedCategory
      actualCategory := groupRow.2
      status := .callError
      evaluatorVersion := evaluatorVersion
      judgeModel := env.judgeModel
      judgeProvider := env.judgeProvider
      requestBody := failure.requestBody
      statusCode := failure.statusCode
      errorName := failure.errorName
      errorMessage := some failure.error
      isRetryable := failure.isRetryable
      promptTokens := failure.usage.map (·.promptTokens)
      completionTokens := failure.usage.map (·.completionTokens)
      totalTokens := failure.usage.map (·.totalTokens)
      reasoningTokens := failure.usage.bind (·.reasoningTokens)
      latencyMs := none
      temperature := none
      evaluatedAt := now }

/-- What the judge does with a loaded proposal. -/
def JudgeEnv.decision (existing force : Bool) (row : Option StoredProposal) : JudgeDecision :=
  evaluateProposal env.upper existing force (row.map fun row => (row.proposal, row.guess))
    ((row.bind (·.guess)).bind fun guess => env.puzzle guess.puzzleId)

end Columns

/-- What a judge call came to. -/
def JudgeCategoryOutcome.result : JudgeCategoryOutcome → EvaluateProposalResult
  | .ok _ => .judged
  | .error _ => .callError

namespace JudgeFleet

/-- Nothing stored, nothing queued. -/
def fresh : JudgeFleet := ⟨0, .empty, .empty, .empty, [], []⟩

/-- The proposals that a dispatch selects from, newest first: with force all that are eligible,
otherwise those of them without an evaluation. -/
def selectPending (w : JudgeFleet) (force : Bool) : List ℕ :=
  (w.proposals.rows.filter fun row =>
    row.eligible && (force || (w.evaluations.lookup row.id).isNone)).map (·.id)

/-- The judge's coverage of the backlog. -/
def getCoverage (w : JudgeFleet) : CategoryEvaluationCoverage :=
  let joined := w.proposals.rows.filter (·.eligible)
  let eligible := joined.length
  let judged := (joined.filter fun row => (w.evaluations.lookup row.id).isSome).length
  ⟨eligible, judged, eligible - judged⟩

/-- The worker of a job. -/
def worker (w : JudgeFleet) (jobId : String) : Option JudgeWorker :=
  w.workers.find? (·.jobId = jobId)

/-- Put the worker of a job into a phase. -/
def setPhase (w : JudgeFleet) (jobId : String) (phase : JudgePhase) : JudgeFleet :=
  { w with workers := w.workers.map fun k =>
    if k.jobId = jobId then { k with phase := phase } else k }

/-- Remove the worker of a job. -/
def dismiss (w : JudgeFleet) (jobId : String) : JudgeFleet :=
  { w with workers := w.workers.filter (·.jobId ≠ jobId) }

/-- Save an evaluation: over the row read before, when that is still there, and otherwise into a
new row, which takes the id read before.  A new row needs its proposal and that no other row is the
proposal's. -/
def saveEvaluation (w : JudgeFleet) (existing : Option ℕ) (llmProposalId : ℕ)
    (columns : CategoryEvaluation) : Option (Table ℕ CategoryEvaluation) :=
  match existing with
  | some id =>
    if w.evaluations.rows.any (·.id = id) then
      some (w.evaluations.update id fun old => { columns with evaluatedAt := old.evaluatedAt })
    else if (w.proposals.lookup llmProposalId).isSome then
      w.evaluations.insert id llmProposalId columns
    else none
  | none =>
    if (w.proposals.lookup llmProposalId).isSome then
      w.evaluations.insert w.evaluations.nextId llmProposalId columns
    else none

/-- Delete proposals, and with each its evaluation. -/
def dropProposals (w : JudgeFleet) (drop : StoredProposal → Bool) : JudgeFleet :=
  { w with
    proposals := w.proposals.filter fun row => !drop row
    evaluations := w.evaluations.filter fun row =>
      !w.proposals.rows.any fun p => drop p && p.id = row.key }

/-- Delete evaluations. -/
def dropEvaluations (w : JudgeFleet) (drop : CategoryEvaluation → Bool) : JudgeFleet :=
  { w with evaluations := w.evaluations.filter fun row => !drop row.value }

section Step

variable (env : JudgeEnv)

/-- A worker has asked for the evaluation of its proposal. -/
def checkedPhase (w : JudgeFleet) (k : JudgeWorker) : JudgePhase :=
  let existing := (w.evaluations.lookup k.llmProposalId).map (·.id)
  if existing.isSome && !k.force then .done (.skipped "already evaluated") else .checked existing

/-- A worker has loaded its proposal and the puzzle of its guess. -/
def loadedPhase (w : JudgeFleet) (k : JudgeWorker) (existing : Option ℕ) : JudgePhase :=
  match w.proposals.lookup k.llmProposalId,
    env.decision existing.isSome k.force (w.proposals.lookup k.llmProposalId) with
  | some row, .judge proposedCategory group => .calling existing row proposedCategory group
  | _, .skipped reason => .done (.skipped reason)
  | none, .judge _ _ => .done (.skipped "not a successful used guess")

/-- One step around the judge; an event that cannot happen is refused. -/
def step (w : JudgeFleet) : JudgeEvent → Option JudgeFleet
  | .tick ms => some { w with now := w.now + ms }
  | .record proposal guess => some { w with proposals := w.proposals.add proposal guess }
  | .dispatch limit force =>
    let selected := (w.selectPending force).take (clampLimit limit)
    some { w with dispatches := w.dispatches ++ [⟨force, selected⟩] }
  | .add call => (w.dispatches[call]?).bind fun d =>
    match d.todo with
    | [] => none
    | id :: rest => some { w with
        queue := w.queue.add (judgeJobId d.force w.now id) (.evaluateCategory id d.force) .waiting
        dispatches := w.dispatches.set call { d with todo := rest } }
  | .addFails call => (w.dispatches[call]?).map fun d =>
    { w with dispatches := w.dispatches.set call { d with todo := [] } }
  | .addRun jobId data =>
    if "run-".toList <+: jobId.toList then
      some { w with queue := w.queue.add jobId (.runStrategy data) .waiting }
    else none
  | .pick jobId => (w.queue.lookup jobId).bind fun j =>
    if j.state = .waiting then
      let w := { w with queue := w.queue.relist { j with state := .active } }
      some (match j.data with
        | .evaluateCategory id force =>
          { w with workers := ⟨jobId, id, force, .started⟩ :: w.workers }
        | .runStrategy _ => w)
    else none
  | .promote jobId => (w.queue.move jobId .delayed .waiting).map fun queue =>
    { w with queue := queue }
  | .findEvaluation jobId => (w.worker jobId).bind fun k =>
    match k.phase with
    | .started => some (w.setPhase jobId (w.checkedPhase k))
    | _ => none
  | .loadProposal jobId => (w.worker jobId).bind fun k =>
    match k.phase with
    | .checked existing => some (w.setPhase jobId (w.loadedPhase env k existing))
    | _ => none
  | .save jobId outcome => (w.worker jobId).bind fun k =>
    match k.phase with
    | .calling existing row proposedCategory group =>
      (w.saveEvaluation existing k.llmProposalId
        (evaluationColumns env row proposedCategory group outcome w.now)).map fun evaluations =>
          { w.setPhase jobId (.done outcome.result) with evaluations := evaluations }
    | _ => none
  | .complete jobId => (w.worker jobId).bind fun k =>
    match k.phase with
    | .done _ => (w.queue.complete removeOnCompleteCount jobId).map fun queue =>
        { w.dismiss jobId with queue := queue }
    | _ => none
  | .throws jobId => (w.worker jobId).bind fun _ =>
    (w.queue.failAttempt queueAttempts removeOnFailCount jobId).map fun queue =>
      { w.dismiss jobId with queue := queue }
  | .completeRun jobId => (w.queue.lookup jobId).bind fun j =>
    match j.data with
    | .runStrategy _ => (w.queue.complete removeOnCompleteCount jobId).map fun queue =>
        { w with queue := queue }
    | .evaluateCategory _ _ => none
  | .throwRun jobId => (w.queue.lookup jobId).bind fun j =>
    match j.data with
    | .runStrategy _ =>
      (w.queue.failAttempt queueAttempts removeOnFailCount jobId).map fun queue =>
        { w with queue := queue }
    | .evaluateCategory _ _ => none
  | .crash jobId => (w.worker jobId).map fun _ => w.dismiss jobId
  | .stall jobId =>
    if w.workers.any (·.jobId = jobId) then none
    else (w.queue.move jobId .active .waiting).map fun queue => { w with queue := queue }
  | .deleteRun runId =>
    some ((w.dropEvaluations (·.strategyRunId = runId)).dropProposals
      (·.proposal.strategyRunId = runId))
  | .deleteProposals ids => some (w.dropProposals (·.id ∈ ids))
  | .deleteRunEvaluations runId => some (w.dropEvaluations (·.strategyRunId = runId))
  | .deleteFailedEvaluations => some (w.dropEvaluations (·.status = .callError))

end Step

end JudgeFleet

end Connections

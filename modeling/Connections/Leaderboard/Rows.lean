import Connections.Judge.JudgeFleet
import Connections.Leaderboard.Costs
import Connections.Library.GroupFold
import Mathlib.Data.Finset.Card
import Mathlib.Data.List.Sort

/-!
# The rows of the leaderboard

One pass over the runs fills an accumulator for each strategy and model, a second one over what the
judge spent adds its cost to the judging model's accumulator, and each accumulator becomes a row.
The reads are separate queries, so nothing is assumed about how they fit together.
-/

namespace Connections.Leaderboard

open GroupFold JobQueue

/-- The strategies that ask a language model. -/
def llmStrategies : List String :=
  ["llm-openai", "llm-ollama", "llm-google", "llm-groq", "llm-openrouter", "llm-mistral",
    "llm-sambanova", "llm-nvidia"]

def isLlmStrategy (strategyName : String) : Bool := strategyName ∈ llmStrategies

/-- The columns of a run that the leaderboard reads. -/
structure LeaderboardRun extends PricedRun where
  puzzleId : ℕ
  status : StrategyRunStatus
  finishedAt : Option ℤ
  deriving DecidableEq, Repr

/-- The columns of a stored prompt that the leaderboard reads. -/
structure LeaderboardPrompt extends PromptTokens where
  latencyMs : Option ℤ
  issueTags : List String
  deriving DecidableEq, Repr

/-- The columns of a category evaluation that the leaderboard reads. -/
structure LeaderboardEvaluation where
  strategyRunId : ℕ
  judgeModel : String
  judgeProvider : String
  verdict : Option CategoryEvalVerdict
  promptTokens : Option ℤ
  completionTokens : Option ℤ
  deriving DecidableEq, Repr

/-- The metadata of a model that a row shows. -/
structure ModelMetadata where
  contextWindow : Option ℕ
  paramCount : Option ℕ
  providerDescription : Option String
  deriving DecidableEq, Repr

/-- What the leaderboard reads. -/
structure Snapshot where
  tables : Tables
  metadata : ℕ → ModelMetadata
  runs : List LeaderboardRun
  /-- The run of each guess. -/
  guesses : List ℕ
  prompts : List LeaderboardPrompt
  evaluations : List LeaderboardEvaluation
  queues : List (Queue String JobData)
  totalPuzzles : ℕ
  run_ids : (runs.map (·.id)).Nodup
  solvePrompts_eq : tables.solvePrompts = prompts.map (·.toPromptTokens)

/-- The pair that a row is about. -/
def LeaderboardRun.pair (run : LeaderboardRun) : String × Option String :=
  (run.strategyName, run.modelName)

/-- The key of a pair. -/
def pairKey (pair : String × Option String) : String := leaderboardKey pair.1 pair.2

/-- Verdict counts. -/
structure CategoryCounts where
  correct : ℕ
  partially : ℕ
  lucky : ℕ
  deriving DecidableEq, Repr

instance : Add CategoryCounts :=
  ⟨fun a b => ⟨a.correct + b.correct, a.partially + b.partially, a.lucky + b.lucky⟩⟩

/-- A row of the grouped query over the evaluations. -/
structure CategoryRow where
  strategyRunId : ℕ
  judgeModel : String
  judgeProvider : String
  counts : CategoryCounts
  promptTokens : Option ℤ
  completionTokens : Option ℤ

/-- What a judge model spent on a run. -/
structure JudgeSpend where
  strategyRunId : ℕ
  judgeModel : String
  judgeProvider : String
  promptTokens : ℤ
  completionTokens : ℤ

/-- A judge's cost, under the names of the row it goes to. -/
structure JudgeCost where
  strategyName : String
  modelName : String
  costUsd : ℚ

def JudgeCost.pair (cost : JudgeCost) : String × Option String :=
  (cost.strategyName, some cost.modelName)

/-- What the pass over the runs collects for a pair. -/
structure LeaderboardAccumulator where
  strategyName : String
  modelName : Option String
  puzzleIds : Finset ℕ
  completed : ℕ
  active : ℕ
  failed : ℕ
  lostRuns : ℕ
  guessCounts : List ℕ
  durationsMs : List ℤ
  costsUsd : List ℚ
  issueCounts : List ℕ
  categories : CategoryCounts

def createLeaderboardAccumulator (strategyName : String) (modelName : Option String) :
    LeaderboardAccumulator where
  strategyName := strategyName
  modelName := modelName
  puzzleIds := ∅
  completed := 0
  active := 0
  failed := 0
  lostRuns := 0
  guessCounts := []
  durationsMs := []
  costsUsd := []
  issueCounts := []
  categories := ⟨0, 0, 0⟩

/-- How the runs of a row stand. -/
structure LeaderboardProgress where
  completed : ℕ
  active : ℕ
  failed : ℤ
  queued : ℕ
  deriving DecidableEq, Repr

/-- The two tables of the leaderboard. -/
inductive LeaderboardKind
  | deterministic
  | llm
  deriving DecidableEq, Repr

/-- A row of the leaderboard. -/
structure LeaderboardRow where
  id : String
  strategyName : String
  modelName : Option String
  kind : LeaderboardKind
  puzzlesCovered : ℕ
  totalPuzzles : ℕ
  progress : LeaderboardProgress
  successRate : Option ℚ
  avgGuessesToSolve : Option ℚ
  minGuesses : Option ℕ
  maxGuesses : Option ℕ
  avgDurationMs : Option ℚ
  avgCostUsd : Option ℚ
  totalCostUsd : Option ℚ
  avgIssues : Option ℚ
  categoryCorrect : ℕ
  categoryPartial : ℕ
  categoryLucky : ℕ
  categoryEvaluated : ℕ
  categoryAccuracy : Option ℚ
  contextWindow : Option ℕ
  paramCount : Option ℕ
  providerDescription : Option String

/-- The leaderboard. -/
structure LeaderboardDto where
  deterministic : List LeaderboardRow
  llm : List LeaderboardRow

/-- All the rows, those of the deterministic strategies first. -/
def LeaderboardDto.rows (board : LeaderboardDto) : List LeaderboardRow :=
  board.deterministic ++ board.llm

/-- The mean of some amounts, if there are any. -/
def mean (amounts : List ℚ) : Option ℚ :=
  if amounts = [] then none else some (amounts.sum / amounts.length)

/-- The jobs that one page of the queue read asks for. -/
def leaderboardPageSize : ℕ := 1000

/-- Add a row's counts to those of its run. -/
def addCategoryRow (map : ℕ → Option CategoryCounts) (row : CategoryRow) :
    ℕ → Option CategoryCounts :=
  Function.update map row.strategyRunId
    (some (match map row.strategyRunId with
      | some existing => existing + row.counts
      | none => row.counts))

namespace Snapshot

variable (s : Snapshot)

/-- The grouped count of the guesses, in a map. -/
def guessCountByRun : ℕ → Option ℕ :=
  (s.guesses.dedup.map fun runId => (runId, s.guesses.count runId)).foldl
    (fun map row => Function.update map row.1 (some row.2)) fun _ => none

/-- The prompts of a run. -/
def promptsOf (runId : ℕ) : List LeaderboardPrompt := s.prompts.filter (·.strategyRunId = runId)

/-- The grouped query over the prompts, besides the token sums: each run's latency and the number of
its prompts with an issue. -/
def promptRows : List (ℕ × Option ℤ × ℕ) :=
  (s.prompts.map (·.strategyRunId)).dedup.map fun runId =>
    (runId, sqlSum ((s.promptsOf runId).map (·.latencyMs)),
      (s.promptsOf runId).countP fun prompt => decide (0 < prompt.issueTags.length))

/-- The map of the issue counts. -/
def issueCountByRun : ℕ → Option ℕ :=
  s.promptRows.foldl (fun map row => Function.update map row.1 (some row.2.2)) fun _ => none

/-- The map of the latencies; a missing sum is left out. -/
def latencyMsByRun : ℕ → Option ℤ :=
  s.promptRows.foldl (fun map row =>
    if row.2.1.isSome then Function.update map row.1 row.2.1 else map) fun _ => none

/-- The grouped query over the evaluations. -/
def categoryRows : List CategoryRow :=
  (s.evaluations.map fun e => (e.strategyRunId, e.judgeModel, e.judgeProvider)).dedup.map
    fun (runId, judgeModel, judgeProvider) =>
      let group := s.evaluations.filter fun e =>
        (e.strategyRunId, e.judgeModel, e.judgeProvider) = (runId, judgeModel, judgeProvider)
      { strategyRunId := runId
        judgeModel := judgeModel
        judgeProvider := judgeProvider
        counts := ⟨group.countP (·.verdict = some .correct),
          group.countP (·.verdict = some .partially), group.countP (·.verdict = some .lucky)⟩
        promptTokens := sqlSum (group.map (·.promptTokens))
        completionTokens := sqlSum (group.map (·.completionTokens)) }

/-- The verdict counts of each run, summed over its judges. -/
def categoryByRun : ℕ → Option CategoryCounts := s.categoryRows.foldl addCategoryRow fun _ => none

/-- What was spent on judging. -/
def judgeSpendRows : List JudgeSpend :=
  s.categoryRows.map fun row =>
    ⟨row.strategyRunId, row.judgeModel, row.judgeProvider, row.promptTokens.getD 0,
      row.completionTokens.getD 0⟩

/-- The start of each run. -/
def startedAtByRun : ℕ → Option ℤ :=
  s.runs.foldl (fun map run => Function.update map run.id (some run.startedAt)) fun _ => none

/-- The time that a completed run took. -/
def solveMs (run : LeaderboardRun) : Option ℤ :=
  if isLlmStrategy run.strategyName then s.latencyMsByRun run.id
  else run.finishedAt.map fun finishedAt => getTime finishedAt - getTime run.startedAt

/-- Add a run's verdicts. -/
def addCategories (acc : LeaderboardAccumulator) (run : LeaderboardRun) :
    LeaderboardAccumulator :=
  match s.categoryByRun run.id with
  | some counts => { acc with categories := acc.categories + counts }
  | none => acc

/-- Add what a run came to. -/
def addOutcome (acc : LeaderboardAccumulator) (run : LeaderboardRun) : LeaderboardAccumulator :=
  match run.status with
  | .completed => { acc with
      completed := acc.completed + 1
      guessCounts := acc.guessCounts ++ [(s.guessCountByRun run.id).getD 0]
      durationsMs := acc.durationsMs ++ (s.solveMs run).toList }
  | .running | .rateLimitedDaily => { acc with active := acc.active + 1 }
  | .failed =>
    let acc := { acc with failed := acc.failed + 1, lostRuns := acc.lostRuns + 1 }
    if isLlmStrategy run.strategyName then
      { acc with
        guessCounts := acc.guessCounts ++ [(s.guessCountByRun run.id).getD 0]
        durationsMs := acc.durationsMs ++ (s.latencyMsByRun run.id).toList }
    else acc
  | .duplicate | .malformedResponse | .error => { acc with failed := acc.failed + 1 }

/-- Add what a run of a model cost and how many of its prompts had an issue. -/
def addSpending (acc : LeaderboardAccumulator) (run : LeaderboardRun) : LeaderboardAccumulator :=
  if run.modelName.getD "" = "" then acc
  else
    let acc := { acc with
      costsUsd := acc.costsUsd ++ (s.tables.solveCostUsd run.toPricedRun).toList }
    if run.status ≠ .rateLimitedDaily then
      { acc with issueCounts := acc.issueCounts ++ [(s.issueCountByRun run.id).getD 0] }
    else acc

/-- Add a run. -/
def addRun (acc : LeaderboardAccumulator) (run : LeaderboardRun) : LeaderboardAccumulator :=
  let acc := { acc with puzzleIds := insert run.puzzleId acc.puzzleIds }
  s.addSpending (s.addOutcome (s.addCategories acc run) run) run

/-- What a judge's spending cost, when it is not zero, its run was read and there was a price. -/
def judgeCost (spend : JudgeSpend) : Option JudgeCost :=
  if spend.promptTokens = 0 ∧ spend.completionTokens = 0 then none
  else
    (s.startedAtByRun spend.strategyRunId).bind fun startedAt =>
      let judgeStrategyName := "llm-" ++ spend.judgeProvider
      (priceAsOf (s.tables.priceHistoryByModel
        (leaderboardKey judgeStrategyName (some spend.judgeModel))) startedAt).map fun rate =>
          ⟨judgeStrategyName, spend.judgeModel,
            computeTokenCostUsd spend.promptTokens spend.completionTokens rate⟩

/-- The judges' costs. -/
def judgeCosts : List JudgeCost := s.judgeSpendRows.filterMap s.judgeCost

/-- Add a judge's cost. -/
def addJudgeCost (acc : LeaderboardAccumulator) (cost : JudgeCost) : LeaderboardAccumulator :=
  { acc with costsUsd := acc.costsUsd ++ [cost.costUsd] }

/-- The accumulators after the pass over the runs. -/
def runAggregates : OrderedMap String LeaderboardAccumulator :=
  OrderedMap.empty.collect (fun run : LeaderboardRun => pairKey run.pair)
    (fun run => createLeaderboardAccumulator run.strategyName run.modelName) s.addRun s.runs

/-- The accumulators after the pass over the judges' costs. -/
def aggregates : OrderedMap String LeaderboardAccumulator :=
  s.runAggregates.collect (fun cost : JudgeCost => pairKey cost.pair)
    (fun cost => createLeaderboardAccumulator cost.strategyName (some cost.modelName)) addJudgeCost
    s.judgeCosts

/-- The metadata of the models by key; of two models with one key the later one's. -/
def metadataByModel : String → Option ModelMetadata :=
  s.tables.supportedModels.foldl (fun map model =>
    Function.update map (leaderboardKey model.strategyName (some model.modelName))
      (some (s.metadata model.id))) fun _ => none

/-- The jobs that wait, by the key of their pair; a job that names no strategy is passed over. -/
def queuedCountsByKey : String → ℕ :=
  (s.queues.flatMap fun queue =>
    queue.readPages [.waiting, .delayed] leaderboardPageSize (by decide) 0).foldl
      (fun counts job =>
        match job.data with
        | .runStrategy data =>
          if data.strategyName = "" then counts
          else
            let key := leaderboardKey data.strategyName data.model
            Function.update counts key (counts key + 1)
        | .evaluateCategory _ => counts) fun _ => 0

/-- The row of an accumulator. -/
def toRow (acc : LeaderboardAccumulator) : LeaderboardRow :=
  let key := leaderboardKey acc.strategyName acc.modelName
  let finished := acc.completed + acc.failed
  let categoryEvaluated :=
    acc.categories.correct + acc.categories.partially + acc.categories.lucky
  let sortedGuesses := acc.guessCounts.mergeSort
  let isLlmRow := isLlmStrategy acc.strategyName
  let lost := if isLlmRow then acc.lostRuns else 0
  let metadata := s.metadataByModel key
  { id := acc.modelName.getD acc.strategyName
    strategyName := acc.strategyName
    modelName := acc.modelName
    kind := if isLlmRow then .llm else .deterministic
    puzzlesCovered := acc.puzzleIds.card
    totalPuzzles := s.totalPuzzles
    progress := ⟨acc.completed + lost, acc.active, acc.failed - lost, s.queuedCountsByKey key⟩
    successRate := if finished = 0 then none else some (acc.completed / finished * 100)
    avgGuessesToSolve := mean (acc.guessCounts.map fun (count : ℕ) => (count : ℚ))
    minGuesses := sortedGuesses.head?
    maxGuesses := sortedGuesses.getLast?
    avgDurationMs := mean (acc.durationsMs.map fun (ms : ℤ) => (ms : ℚ))
    avgCostUsd := mean acc.costsUsd
    totalCostUsd := if acc.costsUsd = [] then none else some acc.costsUsd.sum
    avgIssues := mean (acc.issueCounts.map fun (count : ℕ) => (count : ℚ))
    categoryCorrect := acc.categories.correct
    categoryPartial := acc.categories.partially
    categoryLucky := acc.categories.lucky
    categoryEvaluated := categoryEvaluated
    categoryAccuracy :=
      if categoryEvaluated = 0 then none
      else some (acc.categories.correct / categoryEvaluated * 100)
    contextWindow := metadata.bind (·.contextWindow)
    paramCount := metadata.bind (·.paramCount)
    providerDescription := metadata.bind (·.providerDescription) }

/-- The leaderboard, its rows sorted by id in the host's order of texts. -/
def getLeaderboard (localeLe : String → String → Bool) : LeaderboardDto :=
  let rows := (s.aggregates.entries.map fun entry => s.toRow entry.2).mergeSort
    fun a b => localeLe a.id b.id
  ⟨rows.filter (·.kind = .deterministic), rows.filter (·.kind = .llm)⟩

end Snapshot

end Connections.Leaderboard

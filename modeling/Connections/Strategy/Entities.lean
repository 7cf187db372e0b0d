import Connections.Pools.ProviderPool
import Mathlib.Data.List.Sort

/-!
# Rows of the strategy tables

The columns that the modelled services read or write, under their own names.  Times are
milliseconds since the epoch.
-/

namespace Connections

/-- Model names compare lawfully, so that every table decides alike whether one is in a list. -/
instance lawfulBEqModelName : LawfulBEq (Option String) := inferInstance

/-- The status of a strategy run. -/
inductive StrategyRunStatus
  | running
  | completed
  | failed
  | duplicate
  | malformedResponse
  | error
  | rateLimitedDaily
  deriving DecidableEq, Repr

/-- Statuses that a run never leaves by itself. -/
def terminalStatuses : List StrategyRunStatus :=
  [.completed, .failed, .duplicate, .malformedResponse, .error]

/-- What became of a submitted guess. -/
inductive GuessResult
  | success
  | failure
  | offByOne
  | duplicate
  deriving DecidableEq, Repr

/-- Who submitted a guess. -/
inductive GuessSource
  | user
  | strategy
  deriving DecidableEq, Repr

/-- One strategy run. -/
structure StrategyRun where
  id : ℕ
  puzzleId : ℕ
  strategyName : String
  trialNumber : ℕ
  status : StrategyRunStatus
  /-- Words not yet placed into a solved group. -/
  availableWords : List String
  currentCombination : List ℕ
  modelName : Option String
  contextWindow : Option ℕ
  /-- Set only for runs that reserve each call's worst case against a free tier. -/
  budgetTier : Option String
  startedAt : ℕ
  updatedAt : ℕ
  finishedAt : Option ℕ
  deriving DecidableEq, Repr

/-- One guess of a run. -/
structure Guess where
  puzzleId : ℕ
  strategyRunId : ℕ
  words : List String
  result : GuessResult
  sequenceNumber : ℕ
  source : GuessSource
  deriving DecidableEq, Repr

/-- Whether a proposal was submitted. -/
inductive LlmProposalStatus
  | used
  | notSelected
  deriving DecidableEq, Repr

/-- A candidate group of one reply, bound to the guess it became when it was submitted. -/
structure LlmProposal where
  strategyRunId : ℕ
  promptNumber : ℕ
  words : List String
  category : String
  status : LlmProposalStatus
  /-- The sequence number of the guess. -/
  guess : Option ℕ
  deriving DecidableEq, Repr

/-- Whether a step opened the conversation or followed a failed guess. -/
inductive SolvePromptType
  | initialSolve
  | retry
  deriving DecidableEq, Repr

/-- How a step's call ended. -/
inductive SolvePromptStatus
  | parsed
  | malformedNoAnswerBlock
  | callError
  deriving DecidableEq, Repr

/-- The issue tags that the runner itself reads or sets. -/
def SolvePromptIssueTag.wordNotOnList : String := "wordNotOnList"
def SolvePromptIssueTag.multipleProposals : String := "multipleProposals"
def SolvePromptIssueTag.caseMismatch : String := "caseMismatch"

/-- What a queued job asks a worker to run. -/
structure RunStrategyJobData where
  puzzleId : ℕ
  strategyName : String
  date : String
  trialNumber : ℕ
  model : Option String
  manualRetry : Bool
  budgetTier : Option String
  deriving DecidableEq, Repr

/-- Two job kinds share an LLM queue. -/
inductive JobData
  | runStrategy (data : RunStrategyJobData)
  | evaluateCategory (llmProposalId : ℕ)
  deriving DecidableEq, Repr

/-- A model name with its colons replaced, as a job id may not contain any. -/
def modelSegment (model : Option String) : String :=
  String.ofList (((model.getD "none").toList).map fun c => if c = ':' then '_' else c)

/-- The deterministic job id of a strategy run. -/
def runStrategyJobId (puzzleId : ℕ) (strategyName : String) (model : Option String)
    (trialNumber : ℕ) : String :=
  s!"run-{puzzleId}-{strategyName}-{modelSegment model}-{trialNumber}"

/-- Every strategy queue makes three attempts at a job. -/
def queueAttempts : ℕ := 3

/-- Completed jobs that a strategy queue keeps. -/
def removeOnCompleteCount : ℕ := 1000

/-- Failed jobs that a strategy queue keeps. -/
def removeOnFailCount : ℕ := 5000

/-- The size of a group. -/
def groupSize : ℕ := 4

/-- The first `k`-combination, as indices. -/
def firstCombination (k : ℕ) : List ℕ := List.range k

/-- Milliseconds of a UTC day. -/
def dayMs : ℕ := 86400000

/-- Start of the UTC day of an instant. -/
def startOfTodayUtc (now : ℕ) : ℕ := now - now % dayMs

end Connections

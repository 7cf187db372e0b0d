import Connections.Library.Run
import Connections.Library.JobQueue
import Connections.Library.KeyedTable
import Connections.Library.Combinations
import Connections.Library.Checkpoint
import Connections.Library.Retry
import Connections.Pools.ProviderPool
import Connections.Strategy.Entities
import Connections.Game.Puzzle
import Connections.Strategy.Conversation
import Connections.Strategy.Runner
import Connections.Library.EventLog
import Connections.Library.Partition
import Connections.Strategy.RunMachine
import Connections.Strategy.History
import Connections.Strategy.Resume
import Connections.Strategy.CallRecords
import Connections.Strategy.BoardInvariant
import Connections.Strategy.FinishedAt
import Connections.Strategy.Alternation
import Connections.Solver.Combinatorics
import Connections.Solver.DeterministicSolver
import Connections.Solver.Search
import Connections.Solver.Completeness
import Connections.Solver.ShuffleSmart
import Connections.Holds.RateLimitHold
import Connections.Holds.DailyHold
import Connections.Library.Escrow
import Connections.Budget.Ledger
import Connections.Budget.Coverage
import Connections.Budget.Threshold
import Connections.Dispatch.TrialDispatch
import Connections.Dispatch.TrialUniqueness
import Connections.Dispatch.RunFleet
import Connections.Dispatch.FleetCases
import Connections.Dispatch.DispatchQueues
import Connections.Dispatch.FleetSteps
import Connections.Dispatch.FleetRows
import Connections.Dispatch.LiveJobs
import Connections.Dispatch.ResumedJobs
import Connections.Dispatch.ResumeOverwrites
import Connections.Dispatch.JobAttempts
import Connections.Repair.ResumeCorruption
import Connections.Frontend.GameReducer
import Connections.Frontend.GameConsistency
import Connections.Frontend.Selection
import Connections.Frontend.Resources
import Connections.Ticks.TickChain
import Connections.Ticks.OneChain
import Connections.Library.TextScan
import Connections.Grammar.ParseAnswer
import Connections.Grammar.AnswerLines
import Connections.Grammar.FirstAttempt
import Connections.Grammar.PlainItems
import Connections.Grammar.RoundTrip
import Connections.Strategy.TokenBound
import Connections.Library.Potential
import Connections.Strategy.Termination
import Connections.Strategy.MalformedLimit
import Connections.Strategy.Duplicates
import Connections.Judge.CategoryEvaluator
import Connections.Judge.Requeue
import Connections.Library.AsOf
import Connections.Leaderboard.RunHistory
import Connections.Leaderboard.PriceLog
import Connections.Pools.ResumeChain
import Connections.Strategy.Transcript
import Connections.Repair.PromptText
import Connections.Repair.HistoryLoss
import Connections.Repair.Rollback
import Connections.Repair.RolledBackBoard
import Connections.Grammar.Masking
import Connections.Grammar.BoardWords
import Connections.Grammar.Pairing
import Connections.Library.Loop
import Connections.Library.LeastServed
import Connections.Ticks.Allocation
import Connections.Ticks.RoundRobin
import Connections.Ticks.TierTick
import Connections.Library.DoubleNat
import Connections.Grammar.GroupNumbers
import Connections.Grammar.VanishedGroups
import Connections.Grammar.AnswerShape
import Connections.Orchestrator.LimitReadings
import Connections.Repair.UsableTurns
import Connections.Repair.HistoryCure
import Connections.Repair.RetryAudit
import Connections.Library.CivilDate
import Connections.Holds.PacificMidnight
import Connections.Library.TimeZone
import Connections.Game.IngestionDispatch
import Connections.Game.IngestionOrder
import Connections.Game.PuzzleIngestion
import Connections.Orchestrator.RateLimitSignals

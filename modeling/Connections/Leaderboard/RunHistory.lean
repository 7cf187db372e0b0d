import Connections.Leaderboard.RowOrder
import Connections.Library.Paging
import Mathlib.Algebra.Order.Ring.Rat
import Mathlib.Data.String.Basic
import Mathlib.Order.WithBot

/-!
# Paging through the run history

The history of a strategy is read page by page: filtered, joined with the puzzle's date and with
what is counted and priced for each run, sorted by a column of the caller's choice and then by the
run's id.
-/

namespace Connections.Leaderboard

open Paging

/-- What the history reads, besides what the leaderboard does: the trial number of each run, and the
dates of the puzzles. -/
structure HistoryTables extends Snapshot where
  trialNumbers : ℕ → ℕ
  puzzleDates : ℕ → Option String

inductive RunHistorySortBy
  | puzzleDate
  | startedAt
  | guessCount
  | duration
  | tokenCost
  deriving DecidableEq, Repr

/-- The query parameters. -/
structure RunHistoryOptions where
  model : Option String := none
  page : Option ℤ := none
  limit : Option ℤ := none
  sortBy : Option String := none
  sortDir : Option String := none
  status : Option String := none
  deriving DecidableEq, Repr

structure RunHistoryRow where
  id : ℕ
  puzzleId : ℕ
  puzzleDate : String
  strategyName : String
  modelName : Option String
  trialNumber : ℕ
  status : StrategyRunStatus
  startedAt : ℤ
  finishedAt : Option ℤ
  guessCount : ℕ
  solveDurationMs : Option ℤ
  tokenCostUsd : Option ℚ
  issueCount : ℕ
  categories : CategoryCounts
  deriving DecidableEq

structure RunHistory where
  rows : List RunHistoryRow
  total : ℕ
  page : ℕ
  limit : ℕ
  deriving DecidableEq

def defaultRunHistoryLimit : ℤ := 100

def maxRunHistoryLimit : ℕ := 500

/-- The names that every object inherits; the lookup of the sort expression finds them as well. -/
def inheritedNames : List String :=
  ["constructor", "__defineGetter__", "__defineSetter__", "hasOwnProperty", "__lookupGetter__",
    "__lookupSetter__", "isPrototypeOf", "propertyIsEnumerable", "toString", "valueOf", "__proto__",
    "toLocaleString"]

/-- The values of a run's status. -/
def statusOfText : String → Option StrategyRunStatus
  | "running" => some .running
  | "completed" => some .completed
  | "failed" => some .failed
  | "duplicate" => some .duplicate
  | "malformedResponse" => some .malformedResponse
  | "error" => some .error
  | "rateLimitedDaily" => some .rateLimitedDaily
  | _ => none

namespace RunHistoryOptions

variable (options : RunHistoryOptions)

def safePage : ℕ := (max 1 (options.page.getD 1)).toNat

def safeLimit : ℕ :=
  min maxRunHistoryLimit (max 1 (options.limit.getD defaultRunHistoryLimit)).toNat

/-- The sort column; an inherited name has no expression that could be sorted by. -/
def sortColumn : Option RunHistorySortBy :=
  match options.sortBy with
  | some "puzzleDate" => some .puzzleDate
  | some "startedAt" => some .startedAt
  | some "guessCount" => some .guessCount
  | some "duration" => some .duration
  | some "tokenCost" => some .tokenCost
  | some name => if name ∈ inheritedNames then none else some .puzzleDate
  | none => some .puzzleDate

def descending : Bool := options.sortDir ≠ some "asc"

/-- Whether a run passes the filters; an empty model and an unknown status filter nothing. -/
def admits (run : LeaderboardRun) : Bool :=
  (options.model.all fun model => model = "" ∨ run.modelName = some model) &&
    (options.status.bind statusOfText).all fun status => run.status = status

/-- The same query for another page. -/
def onPage (number : ℕ) : RunHistoryOptions := { options with page := some number }

end RunHistoryOptions

/-- A nullable column to sort by, `NULL` being its greatest value. -/
def nullsLast {α : Type*} (value : Option α) : WithTop α := value

/-- The rows sorted by a column. -/
def RunHistorySortBy.sort (descending : Bool) (rows : List RunHistoryRow) :
    RunHistorySortBy → List RunHistoryRow
  | .puzzleDate => orderBy descending (·.puzzleDate) (·.id) rows
  | .startedAt => orderBy descending (·.startedAt) (·.id) rows
  | .guessCount => orderBy descending (·.guessCount) (·.id) rows
  | .duration => orderBy descending (fun row => nullsLast row.solveDurationMs) (·.id) rows
  | .tokenCost => orderBy descending (fun row => nullsLast row.tokenCostUsd) (·.id) rows

namespace HistoryTables

variable (h : HistoryTables)

/-- The row of a run. -/
def toRow (run : LeaderboardRun) (puzzleDate : String) : RunHistoryRow where
  id := run.id
  puzzleId := run.puzzleId
  puzzleDate := puzzleDate
  strategyName := run.strategyName
  modelName := run.modelName
  trialNumber := h.trialNumbers run.id
  status := run.status
  startedAt := run.startedAt
  finishedAt := run.finishedAt
  guessCount := h.guesses.count run.id
  solveDurationMs := h.latencyMs run.id
  tokenCostUsd := h.tables.tokenCostUsd run.strategyName run.toPricedRun
  issueCount := h.issues run.id
  categories := h.verdicts run.id

/-- The runs of the query, each with the date of its puzzle. -/
def matching (strategyName : String) (options : RunHistoryOptions) : List RunHistoryRow :=
  (h.runs.filter fun run => run.strategyName = strategyName && options.admits run).filterMap
    fun run => (h.puzzleDates run.puzzleId).map (h.toRow run)

/-- One page of the history of a strategy, unless the query fails. -/
def getRunHistory (strategyName : String) (options : RunHistoryOptions) : Option RunHistory :=
  options.sortColumn.map fun sortBy =>
    { rows := page (sortBy.sort options.descending (h.matching strategyName options))
        options.safePage options.safeLimit
      total := (h.matching strategyName options).length
      page := options.safePage
      limit := options.safeLimit }

/-! ### The pages -/

variable {h} {h' : HistoryTables}

/-- The same tables, read in another order. -/
structure Reordered (h h' : HistoryTables) : Prop where
  snapshot : h.toSnapshot.Reordered h'.toSnapshot
  trialNumbers : h'.trialNumbers = h.trialNumbers
  puzzleDates : h'.puzzleDates = h.puzzleDates

namespace Reordered

theorem refl (h : HistoryTables) : h.Reordered h where
  snapshot := ⟨rfl, rfl, rfl, rfl, rfl, .refl _, .refl _, .refl _, .refl _⟩
  trialNumbers := rfl
  puzzleDates := rfl

/-- The cost of a run does not feel the order its prompts are read in. -/
theorem tokenCostUsd (hr : h.Reordered h') (strategyName : String) (run : PricedRun) :
    h'.tables.tokenCostUsd strategyName run = h.tables.tokenCostUsd strategyName run := by
  have hprompts := hr.snapshot.pricedPrompts run.id
  simp only [Tables.tokenCostUsd, Tables.joinedPrice, Tables.joinedModel,
    hr.snapshot.supportedModels, hr.snapshot.modelPrices, sqlSum_perm (hprompts.map _)]

/-- A run's row is the same. -/
theorem toRow (hr : h.Reordered h') : h'.toRow = h.toRow := by
  funext run puzzleDate
  simp only [HistoryTables.toRow, hr.trialNumbers, hr.tokenCostUsd,
    hr.snapshot.guesses.count_eq run.id, hr.snapshot.latencyMs run.id, hr.snapshot.issues run.id,
    hr.snapshot.verdicts run.id]

/-- The same rows match. -/
theorem matching (hr : h.Reordered h') (strategyName : String) (options : RunHistoryOptions) :
    (h.matching strategyName options).Perm (h'.matching strategyName options) := by
  unfold HistoryTables.matching
  rw [hr.toRow, hr.puzzleDates]
  exact (hr.snapshot.runs.filter _).filterMap _

end Reordered

/-- No run has two rows. -/
theorem matching_ids (strategyName : String) (options : RunHistoryOptions) :
    ((h.matching strategyName options).map (·.id)).Nodup := by
  have hruns : h.runs.Pairwise fun run other => run.id ≠ other.id :=
    List.pairwise_map.mp h.run_ids
  apply List.pairwise_map.mpr
  rw [matching, List.pairwise_filterMap]
  refine (hruns.sublist List.filter_sublist).imp ?_
  intro run other hne row hrow row' hrow'
  obtain ⟨date, -, rfl⟩ := Option.map_eq_some_iff.mp hrow
  obtain ⟨date', -, rfl⟩ := Option.map_eq_some_iff.mp hrow'
  exact hne

end HistoryTables

/-- Two rows in the order of a column. -/
def RunHistorySortBy.InOrder (sortBy : RunHistorySortBy) (descending : Bool)
    (a b : RunHistoryRow) : Prop :=
  match sortBy with
  | .puzzleDate => Precedes descending (·.puzzleDate) (·.id) a b
  | .startedAt => Precedes descending (·.startedAt) (·.id) a b
  | .guessCount => Precedes descending (·.guessCount) (·.id) a b
  | .duration => Precedes descending (fun row => nullsLast row.solveDurationMs) (·.id) a b
  | .tokenCost => Precedes descending (fun row => nullsLast row.tokenCostUsd) (·.id) a b

/-- Sorting the rows loses none. -/
theorem RunHistorySortBy.sort_perm (sortBy : RunHistorySortBy) (descending : Bool)
    (rows : List RunHistoryRow) : (sortBy.sort descending rows).Perm rows := by
  cases sortBy <;> exact orderBy_perm ..

/-- Sorted rows are in order. -/
theorem RunHistorySortBy.pairwise_sort (sortBy : RunHistorySortBy) (descending : Bool)
    (rows : List RunHistoryRow) :
    (sortBy.sort descending rows).Pairwise (sortBy.InOrder descending) := by
  cases sortBy <;> exact pairwise_orderBy ..

/-- Rows that differ by their ids have one sorted order. -/
theorem RunHistorySortBy.sort_eq_of_perm (sortBy : RunHistorySortBy) (descending : Bool)
    {rows rows' : List RunHistoryRow} (h : rows.Perm rows') (hids : (rows.map (·.id)).Nodup) :
    sortBy.sort descending rows = sortBy.sort descending rows' := by
  cases sortBy <;> exact orderBy_eq_of_perm h hids

namespace HistoryTables

variable {h h' : HistoryTables}

/-- The history does not depend on the order in which the tables are read. -/
theorem Reordered.getRunHistory (hr : h.Reordered h') (strategyName : String)
    (options : RunHistoryOptions) :
    h'.getRunHistory strategyName options = h.getRunHistory strategyName options := by
  have hperm := hr.matching strategyName options
  unfold HistoryTables.getRunHistory
  congr 1
  funext sortBy
  rw [sortBy.sort_eq_of_perm options.descending hperm (matching_ids strategyName options),
    hperm.length_eq]

/-- A page in its place. -/
def pageOf (h : HistoryTables) (strategyName : String) (options : RunHistoryOptions)
    (sortBy : RunHistorySortBy) (number : ℕ) : RunHistory where
  rows := page (sortBy.sort options.descending (h.matching strategyName options)) number
    options.safeLimit
  total := (h.matching strategyName options).length
  page := number
  limit := options.safeLimit

/-- Pages that are read one after the other, each from the tables in some order, list the runs that
match exactly once each, sorted by the column and then by the id, as soon as there are enough of
them for the total that each page gives. -/
theorem pages_list_each_run_once (strategyName : String) (options : RunHistoryOptions)
    (sortBy : RunHistorySortBy) (hsort : options.sortColumn = some sortBy)
    (reads : ℕ → HistoryTables) (hreads : ∀ i, h.Reordered (reads i)) (count : ℕ)
    (hcount : (h.matching strategyName options).length ≤ count * options.safeLimit) :
    ∃ pages : List RunHistory,
      ((List.range count).mapM fun i =>
        (reads i).getRunHistory strategyName (options.onPage (i + 1))) = some pages ∧
      (∀ page ∈ pages, page.total = (h.matching strategyName options).length ∧
        page.rows.length ≤ page.limit) ∧
      (pages.flatMap (·.rows)).Perm (h.matching strategyName options) ∧
      (pages.flatMap (·.rows)).Pairwise (sortBy.InOrder options.descending) := by
  have hperm := sortBy.sort_perm options.descending (h.matching strategyName options)
  have hread (i : ℕ) : (reads i).getRunHistory strategyName (options.onPage (i + 1)) =
      some (h.pageOf strategyName options sortBy (i + 1)) := by
    have hpage : (options.onPage (i + 1)).safePage = i + 1 := by
      simp only [RunHistoryOptions.safePage, RunHistoryOptions.onPage, Option.getD_some]
      omega
    rw [(hreads i).getRunHistory, HistoryTables.getRunHistory, hpage]
    change options.sortColumn.map _ = _
    rw [hsort]
    rfl
  have hflatten : ((List.range count).map fun i =>
      h.pageOf strategyName options sortBy (i + 1)).flatMap (·.rows) =
        sortBy.sort options.descending (h.matching strategyName options) := by
    rw [List.flatMap_def, List.map_map]
    exact flatten_pages _ (hperm.length_eq ▸ hcount)
  refine ⟨(List.range count).map fun i => h.pageOf strategyName options sortBy (i + 1),
    ?_, ?_, ?_, ?_⟩
  · simp only [hread]
    exact List.mapM_pure
  · intro history hmem
    obtain ⟨i, -, rfl⟩ := List.mem_map.mp hmem
    exact ⟨rfl, List.length_take_le _ _⟩
  · rw [hflatten]
    exact hperm
  · rw [hflatten]
    exact sortBy.pairwise_sort options.descending _

/-- Runs of two puzzles. -/
def ofTwoPuzzles (s : Snapshot) : HistoryTables :=
  { s with
    trialNumbers := fun _ => 0
    puzzleDates := fun id => [(7, "2025-01-01"), (8, "2025-01-02")].lookup id }

/-- The runs are read the other way round for every other page. -/
def alternating (i : ℕ) : HistoryTables :=
  if i % 2 = 0 then ofTwoPuzzles .threeRuns else ofTwoPuzzles .threeRunsReversed

/-- The slowest runs first, as few as possible to a page. -/
def slowestFirst : RunHistoryOptions := { limit := some 0, sortBy := some "duration" }

/-- Each of two pages has one of two runs that are equally slow. -/
theorem two_pages_have_a_run_each :
    ∃ pages : List RunHistory,
      ((List.range 2).mapM fun i =>
        (alternating i).getRunHistory "llm-openai" (slowestFirst.onPage (i + 1))) = some pages ∧
      ((pages.flatMap (·.rows)).map (·.id)).Perm [1, 3] ∧
      ∀ page ∈ pages, page.total = 2 ∧ page.rows.length ≤ page.limit := by
  have hreads (i : ℕ) : (ofTwoPuzzles .threeRuns).Reordered (alternating i) := by
    unfold alternating
    split
    · exact .refl _
    · exact ⟨Snapshot.threeRuns_reordered, rfl, rfl⟩
  have hids : ((ofTwoPuzzles .threeRuns).matching "llm-openai" slowestFirst).map (·.id) =
      [1, 3] := by decide +kernel
  have hlength : ((ofTwoPuzzles .threeRuns).matching "llm-openai" slowestFirst).length = 2 := by
    rw [← List.length_map, hids]
    rfl
  obtain ⟨pages, hpages, htotals, hperm, -⟩ := pages_list_each_run_once "llm-openai" slowestFirst
    .duration (by decide) alternating hreads 2 (by rw [hlength]; decide)
  refine ⟨pages, hpages, hids ▸ hperm.map _, fun page hpage => ?_⟩
  rw [← hlength]
  exact htotals page hpage

end HistoryTables

end Connections.Leaderboard

import Connections.Leaderboard.Rows
import Mathlib.Data.Finset.Union

/-!
# What the leaderboard's rows add up to

The maps that the passes look things up in are counts and sums over the tables, so each row is what
its strategy's and model's runs come to, and the rows together are about each run once.
-/

namespace Connections.Leaderboard

open GroupFold JobQueue

attribute [ext] CategoryCounts LeaderboardAccumulator

@[simp] theorem correct_add (a b : CategoryCounts) :
    (a + b).correct = a.correct + b.correct := rfl

@[simp] theorem partially_add (a b : CategoryCounts) :
    (a + b).partially = a.partially + b.partially := rfl

@[simp] theorem lucky_add (a b : CategoryCounts) : (a + b).lucky = a.lucky + b.lucky := rfl

/-- The number of verdicts. -/
def CategoryCounts.total (counts : CategoryCounts) : ℕ :=
  counts.correct + counts.partially + counts.lucky

/-- The run is neither over nor a failure. -/
def LeaderboardRun.inProgress (run : LeaderboardRun) : Bool :=
  run.status = .running || run.status = .rateLimitedDaily

/-- The run ended without solving its puzzle. -/
def LeaderboardRun.broke (run : LeaderboardRun) : Bool :=
  run.status ≠ .completed && !run.inProgress

/-- The run played its puzzle to an end that counts for the averages. -/
def LeaderboardRun.playedOut (run : LeaderboardRun) : Bool :=
  run.status = .completed || (run.status = .failed && isLlmStrategy run.strategyName)

/-- The run counts for the average of the issues. -/
def LeaderboardRun.observed (run : LeaderboardRun) : Bool :=
  run.modelName.getD "" ≠ "" && run.status ≠ .rateLimitedDaily

/-- Counting what meets one of two tests that exclude each other. -/
theorem countP_of_or {α : Type} {p q r : α → Bool} (hr : ∀ a, r a = (p a || q a))
    (hpq : ∀ a, p a = true → q a = false) (l : List α) :
    l.countP r = l.countP p + l.countP q := by
  induction l with
  | nil => rfl
  | cons a l ih =>
    simp only [List.countP_cons, hr, ih]
    cases hp : p a with
    | false => simp [Nat.add_assoc]
    | true =>
      simp only [hpq a hp, Bool.or_false, if_true, Bool.false_eq_true, if_false]
      omega

/-- Counting group by group, over some of the groups, counts what is in these groups. -/
theorem sum_countP_groups {α κ : Type} [DecidableEq κ] (key : α → κ) (q : α → Bool) (l : List α)
    {groups : List κ} (hgroups : groups.Nodup) :
    (groups.map fun t => (l.filter (key · = t)).countP q).sum =
      l.countP fun a => decide (key a ∈ groups) && q a := by
  induction groups with
  | nil => simp
  | cons t groups ih =>
    obtain ⟨hnew, hrest⟩ := List.nodup_cons.mp hgroups
    rw [List.map_cons, List.sum_cons, ih hrest, List.countP_filter]
    symm
    apply countP_of_or
    · intro a
      by_cases ha : key a = t <;> by_cases hmem : key a ∈ groups <;> simp [ha, hmem]
    · intro a ha
      have hkey : q a = true ∧ key a = t := by simpa using ha
      simp [hkey.2, hnew]

namespace Snapshot

variable (s : Snapshot)

/-! ### The maps -/

/-- A run's guesses. -/
theorem guessCountByRun_getD (runId : ℕ) :
    (s.guessCountByRun runId).getD 0 = s.guesses.count runId := by
  rw [guessCountByRun, List.foldl_map]
  have hmap := foldl_update s.guesses.count s.guesses.dedup (fun _ => none) runId
  rw [hmap]
  split
  · rfl
  · rename_i hnot
    rw [List.mem_dedup] at hnot
    rw [Option.getD_none, List.count_eq_zero_of_not_mem hnot]

/-- A run's prompts with an issue. -/
def issues (runId : ℕ) : ℕ :=
  (s.promptsOf runId).countP fun prompt => decide (0 < prompt.issueTags.length)

theorem promptsOf_eq_nil {runId : ℕ} (h : runId ∉ s.prompts.map (·.strategyRunId)) :
    s.promptsOf runId = [] := by
  rw [promptsOf, List.filter_eq_nil_iff]
  intro prompt hprompt hid
  exact h (List.mem_map.mpr ⟨prompt, hprompt, of_decide_eq_true hid⟩)

theorem issueCountByRun_getD (runId : ℕ) :
    (s.issueCountByRun runId).getD 0 = s.issues runId := by
  rw [issueCountByRun, promptRows, List.foldl_map]
  have hmap := foldl_update s.issues (s.prompts.map (·.strategyRunId)).dedup (fun _ => none) runId
  refine (congrArg (Option.getD · 0) hmap).trans ?_
  split
  · rfl
  · rename_i hnot
    rw [List.mem_dedup] at hnot
    rw [Option.getD_none, issues, s.promptsOf_eq_nil hnot, List.countP_nil]

/-- A run's latency. -/
def latencyMs (runId : ℕ) : Option ℤ := sqlSum ((s.promptsOf runId).map (·.latencyMs))

theorem latencyMsByRun_eq (runId : ℕ) : s.latencyMsByRun runId = s.latencyMs runId := by
  have hgen : ∀ (keys : List ℕ) (init : ℕ → Option ℤ), (init runId = none ∨
      init runId = s.latencyMs runId) →
      (keys.map fun id => (id, s.latencyMs id, s.issues id)).foldl (fun map row =>
        if row.2.1.isSome then Function.update map row.1 row.2.1 else map) init runId =
      if runId ∈ keys then s.latencyMs runId else init runId := by
    intro keys
    induction keys with
    | nil => simp
    | cons id keys ih =>
      intro init hinit
      rw [List.map_cons, List.foldl_cons]
      by_cases hid : runId = id
      · subst hid
        cases hlatency : s.latencyMs runId with
        | none =>
          have hnone : init runId = none := hinit.elim id (hlatency ▸ ·)
          simp [ih init hinit, hlatency, hnone]
        | some ms =>
          simp only
          rw [ih _ (.inr (by simp [hlatency]))]
          simp [hlatency]
      · cases hlatency : s.latencyMs id with
        | none => simp [ih init hinit, hid]
        | some ms =>
          have hkept : Function.update init id (some ms) runId = init runId :=
            Function.update_of_ne hid _ _
          simp only [Option.isSome_some, if_true]
          rw [ih _ (by rw [hkept]; exact hinit), hkept]
          simp [hid]
  refine (hgen (s.prompts.map (·.strategyRunId)).dedup (fun _ => none) (.inl rfl)).trans ?_
  split
  · rfl
  · rename_i hnot
    rw [List.mem_dedup] at hnot
    rw [latencyMs, s.promptsOf_eq_nil hnot]
    rfl

/-- A run's verdicts. -/
def verdicts (runId : ℕ) : CategoryCounts where
  correct := s.evaluations.countP fun e => e.strategyRunId = runId ∧ e.verdict = some .correct
  partially := s.evaluations.countP fun e => e.strategyRunId = runId ∧ e.verdict = some .partially
  lucky := s.evaluations.countP fun e => e.strategyRunId = runId ∧ e.verdict = some .lucky

/-- An additive measure of the counts in the map is summed over the rows of the run. -/
theorem foldl_categories (f : CategoryCounts → ℕ) (hf : ∀ a b, f (a + b) = f a + f b)
    (rows : List CategoryRow) (init : ℕ → Option CategoryCounts) (runId : ℕ) :
    (rows.foldl addCategoryRow init runId).elim 0 f =
      (init runId).elim 0 f +
        ((rows.filter (·.strategyRunId = runId)).map fun row => f row.counts).sum := by
  induction rows generalizing init with
  | nil => simp
  | cons row rows ih =>
    rw [List.foldl_cons, ih, addCategoryRow]
    by_cases hrow : row.strategyRunId = runId
    · subst hrow
      cases hinit : init row.strategyRunId with
      | none => simp
      | some existing => simp [hf, Nat.add_assoc]
    · simp [hrow, Function.update_of_ne (Ne.symm hrow)]

/-- What the rows of a run count, group by group, is what the table counts. -/
theorem sum_categoryRows (runId : ℕ) (q : LeaderboardEvaluation → Bool)
    (f : CategoryRow → ℕ) (hf : ∀ row ∈ s.categoryRows, f row =
      (s.evaluations.filter fun e => (e.strategyRunId, e.judgeModel, e.judgeProvider) =
        (row.strategyRunId, row.judgeModel, row.judgeProvider)).countP q) :
    ((s.categoryRows.filter (·.strategyRunId = runId)).map f).sum =
      s.evaluations.countP fun e => decide (e.strategyRunId = runId) && q e := by
  have hnodup : ((s.evaluations.map fun e =>
      (e.strategyRunId, e.judgeModel, e.judgeProvider)).dedup.filter (·.1 = runId)).Nodup :=
    (List.nodup_dedup _).filter _
  have hgroups := sum_countP_groups
    (fun e : LeaderboardEvaluation => (e.strategyRunId, e.judgeModel, e.judgeProvider)) q
    s.evaluations hnodup
  have hrows : (s.categoryRows.filter (·.strategyRunId = runId)).map f =
      (s.categoryRows.filter (·.strategyRunId = runId)).map fun row =>
        (s.evaluations.filter fun e => (e.strategyRunId, e.judgeModel, e.judgeProvider) =
          (row.strategyRunId, row.judgeModel, row.judgeProvider)).countP q :=
    List.map_congr_left fun row hrow => hf row (List.mem_of_mem_filter hrow)
  rw [hrows, categoryRows, List.filter_map, List.map_map]
  refine hgroups.trans (List.countP_congr fun e he => ?_)
  have hmem : (e.strategyRunId, e.judgeModel, e.judgeProvider) ∈ (s.evaluations.map fun e =>
      (e.strategyRunId, e.judgeModel, e.judgeProvider)).dedup :=
    List.mem_dedup.mpr (List.mem_map.mpr ⟨e, he, rfl⟩)
  simp [List.mem_filter, hmem]

/-- An additive measure of a run's counts, in the map. -/
theorem categoryByRun_elim (f : CategoryCounts → ℕ) (hf : ∀ a b, f (a + b) = f a + f b)
    (runId : ℕ) (q : LeaderboardEvaluation → Bool)
    (hq : ∀ row ∈ s.categoryRows, f row.counts =
      (s.evaluations.filter fun e => (e.strategyRunId, e.judgeModel, e.judgeProvider) =
        (row.strategyRunId, row.judgeModel, row.judgeProvider)).countP q) :
    (s.categoryByRun runId).elim 0 f =
      s.evaluations.countP fun e => decide (e.strategyRunId = runId) && q e := by
  rw [categoryByRun, foldl_categories f hf, ← s.sum_categoryRows runId q _ hq]
  simp

/-- A run's verdict counts, in the map. -/
theorem categoryByRun_getD (runId : ℕ) :
    (s.categoryByRun runId).getD ⟨0, 0, 0⟩ = s.verdicts runId := by
  have helim (f : CategoryCounts → ℕ) (hzero : f ⟨0, 0, 0⟩ = 0) :
      f ((s.categoryByRun runId).getD ⟨0, 0, 0⟩) = (s.categoryByRun runId).elim 0 f := by
    cases s.categoryByRun runId with
    | none => exact hzero
    | some counts => rfl
  ext
  · rw [helim (·.correct) rfl, s.categoryByRun_elim _ correct_add runId
      (fun e => decide (e.verdict = some .correct))]
    · simp [verdicts]
    · intro row hrow
      obtain ⟨⟨id, model, provider⟩, -, rfl⟩ := List.mem_map.mp hrow
      rfl
  · rw [helim (·.partially) rfl, s.categoryByRun_elim _ partially_add runId
      (fun e => decide (e.verdict = some .partially))]
    · simp [verdicts]
    · intro row hrow
      obtain ⟨⟨id, model, provider⟩, -, rfl⟩ := List.mem_map.mp hrow
      rfl
  · rw [helim (·.lucky) rfl, s.categoryByRun_elim _ lucky_add runId
      (fun e => decide (e.verdict = some .lucky))]
    · simp [verdicts]
    · intro row hrow
      obtain ⟨⟨id, model, provider⟩, -, rfl⟩ := List.mem_map.mp hrow
      rfl

/-! ### The accumulators -/

theorem addCategories_eq (acc : LeaderboardAccumulator) (run : LeaderboardRun) :
    s.addCategories acc run = { acc with categories := acc.categories + s.verdicts run.id } := by
  rw [addCategories, ← s.categoryByRun_getD]
  cases s.categoryByRun run.id with
  | none => ext <;> simp
  | some counts => rfl

theorem addOutcome_eq (acc : LeaderboardAccumulator) (run : LeaderboardRun) :
    s.addOutcome acc run =
      { acc with
        completed := acc.completed + if run.status = .completed then 1 else 0
        active := acc.active + if run.inProgress then 1 else 0
        failed := acc.failed + if run.broke then 1 else 0
        lostRuns := acc.lostRuns + if run.status = .failed then 1 else 0
        guessCounts := acc.guessCounts ++ if run.playedOut then [s.guesses.count run.id] else []
        durationsMs := acc.durationsMs ++
          if run.playedOut then (s.solveMs run).toList else [] } := by
  unfold addOutcome
  cases hstatus : run.status with
  | failed =>
    cases hllm : isLlmStrategy run.strategyName <;>
      simp [LeaderboardRun.inProgress, LeaderboardRun.broke, LeaderboardRun.playedOut, solveMs,
        hstatus, hllm, guessCountByRun_getD]
  | _ =>
    simp [LeaderboardRun.inProgress, LeaderboardRun.broke, LeaderboardRun.playedOut, hstatus,
      guessCountByRun_getD]

theorem addSpending_eq (acc : LeaderboardAccumulator) (run : LeaderboardRun) :
    s.addSpending acc run =
      { acc with
        costsUsd := acc.costsUsd ++ (s.tables.solveCostUsd run.toPricedRun).toList
        issueCounts := acc.issueCounts ++ if run.observed then [s.issues run.id] else [] } := by
  unfold addSpending
  by_cases hmodel : run.modelName.getD "" = ""
  · have hcost : s.tables.solveCostUsd run.toPricedRun = none := by
      rw [Tables.solveCostUsd, if_pos hmodel]
    simp [hmodel, hcost, LeaderboardRun.observed]
  · by_cases hstatus : run.status = .rateLimitedDaily
    · simp [hmodel, hstatus, LeaderboardRun.observed]
    · simp [hmodel, hstatus, LeaderboardRun.observed, issueCountByRun_getD]

/-- What adding a run does to an accumulator. -/
theorem addRun_eq (acc : LeaderboardAccumulator) (run : LeaderboardRun) :
    s.addRun acc run =
      { acc with
        puzzleIds := insert run.puzzleId acc.puzzleIds
        completed := acc.completed + if run.status = .completed then 1 else 0
        active := acc.active + if run.inProgress then 1 else 0
        failed := acc.failed + if run.broke then 1 else 0
        lostRuns := acc.lostRuns + if run.status = .failed then 1 else 0
        guessCounts := acc.guessCounts ++ if run.playedOut then [s.guesses.count run.id] else []
        durationsMs := acc.durationsMs ++ if run.playedOut then (s.solveMs run).toList else []
        costsUsd := acc.costsUsd ++ (s.tables.solveCostUsd run.toPricedRun).toList
        issueCounts := acc.issueCounts ++ if run.observed then [s.issues run.id] else []
        categories := acc.categories + s.verdicts run.id } := by
  rw [addRun, addCategories_eq, addOutcome_eq, addSpending_eq]

/-! ### The rows together -/

/-- The two tables hold the row of each accumulator. -/
theorem getLeaderboard_perm (localeLe : String → String → Bool) :
    (s.getLeaderboard localeLe).rows.Perm
      (s.aggregates.entries.map fun entry => s.toRow entry.2) := by
  have hkinds : ∀ rows : List LeaderboardRow, rows.filter (·.kind = .llm) =
      rows.filter fun row => !decide (row.kind = .deterministic) := by
    intro rows
    refine List.filter_congr fun row _ => ?_
    cases row.kind <;> rfl
  simp only [getLeaderboard, LeaderboardDto.rows, hkinds]
  exact (List.filter_append_perm _ _).trans (List.mergeSort_perm _ _)

/-- The accumulators start from those of the pass over the runs, which start from none. -/
theorem sum_aggregates {M : Type*} [AddCommMonoid M] (g : LeaderboardAccumulator → M)
    (ofRun : LeaderboardRun → M) (ofCost : JudgeCost → M)
    (hfirst : ∀ strategyName modelName,
      g (createLeaderboardAccumulator strategyName modelName) = 0)
    (hrun : ∀ acc run, g (s.addRun acc run) = g acc + ofRun run)
    (hcost : ∀ acc cost, g (addJudgeCost acc cost) = g acc + ofCost cost) :
    (s.aggregates.entries.map fun entry => g entry.2).sum =
      (s.runs.map ofRun).sum + (s.judgeCosts.map ofCost).sum := by
  rw [aggregates, OrderedMap.sum_collect _ _ _ g ofCost (fun _ => hfirst _ _) hcost,
    runAggregates, OrderedMap.sum_collect _ _ _ g ofRun (fun _ => hfirst _ _) hrun]
  simp [OrderedMap.empty]

/-- A run is over, in progress or a failure, and only one of these. -/
theorem outcome_of_run (run : LeaderboardRun) :
    ((if run.status = .completed then 1 else 0) + (if run.inProgress then 1 else 0) +
      if run.broke then 1 else 0) = 1 := by
  cases hstatus : run.status <;>
    simp [LeaderboardRun.inProgress, LeaderboardRun.broke, hstatus]

/-- A run's verdicts are the evaluations of it that have one. -/
theorem total_verdicts (runId : ℕ) : (s.verdicts runId).total =
    s.evaluations.countP fun e => decide (e.strategyRunId = runId) && e.verdict.isSome := by
  simp only [CategoryCounts.total, verdicts, Bool.decide_and]
  induction s.evaluations with
  | nil => rfl
  | cons e evaluations ih =>
    simp only [List.countP_cons]
    by_cases hrun : e.strategyRunId = runId
    · cases hverdict : e.verdict with
      | none => simpa [hrun, hverdict] using ih
      | some verdict =>
        cases verdict <;> simp [hrun] <;> omega
    · simpa [hrun] using ih

/-- Counting run by run, over distinct runs, counts what is about one of them. -/
theorem sum_total_verdicts : (s.runs.map fun run => (s.verdicts run.id).total).sum =
    s.evaluations.countP fun e =>
      decide (e.strategyRunId ∈ s.runs.map (·.id)) && e.verdict.isSome := by
  rw [← sum_countP_groups (·.strategyRunId) (·.verdict.isSome) s.evaluations s.run_ids,
    List.map_map]
  congr 1
  refine List.map_congr_left fun run _ => ?_
  rw [total_verdicts, Function.comp_apply, List.countP_filter]
  exact List.countP_congr fun e _ => by simp [and_comm]

theorem progress_toRow (acc : LeaderboardAccumulator) :
    ((s.toRow acc).progress.completed : ℤ) + (s.toRow acc).progress.active +
      (s.toRow acc).progress.failed = ((acc.completed + acc.active + acc.failed : ℕ) : ℤ) := by
  simp only [toRow]
  split <;> omega

theorem totalCostUsd_toRow (acc : LeaderboardAccumulator) :
    (s.toRow acc).totalCostUsd.getD 0 = acc.costsUsd.sum := by
  simp only [toRow]
  split
  · rename_i hnil
    rw [hnil]
    rfl
  · rfl

/-- The amounts that are there, added up. -/
theorem sum_filterMap {α : Type} (f : α → Option ℚ) (l : List α) :
    (l.map fun a => (f a).toList.sum).sum = (l.filterMap f).sum := by
  induction l with
  | nil => rfl
  | cons a l ih =>
    cases hf : f a with
    | none => simp [hf, ih]
    | some amount => simp [hf, ih]

/-- Together the rows are about each run once: each is counted as completed, active or failed in one
row, each verdict on one of the runs is counted in one row, and the costs of the rows add up to the
cost of solving each priced run and of judging. -/
theorem leaderboard_counts_everything_once (localeLe : String → String → Bool) :
    ((s.getLeaderboard localeLe).rows.map fun row =>
        (row.progress.completed : ℤ) + row.progress.active + row.progress.failed).sum =
        s.runs.length ∧
      ((s.getLeaderboard localeLe).rows.map (·.categoryEvaluated)).sum =
        s.evaluations.countP (fun e =>
          decide (e.strategyRunId ∈ s.runs.map (·.id)) && e.verdict.isSome) ∧
      ((s.getLeaderboard localeLe).rows.map fun row => row.totalCostUsd.getD 0).sum =
        (s.runs.filterMap fun run => s.tables.solveCostUsd run.toPricedRun).sum +
          (s.judgeCosts.map (·.costUsd)).sum := by
  have hperm := s.getLeaderboard_perm localeLe
  refine ⟨?_, ?_, ?_⟩
  · rw [(hperm.map _).sum_eq, List.map_map]
    have hsum := s.sum_aggregates (fun acc => ((acc.completed + acc.active + acc.failed : ℕ) : ℤ))
      (fun _ => 1) (fun _ => 0) (fun _ _ => rfl) ?_ ?_
    · simpa [Function.comp_def, progress_toRow] using hsum
    · intro acc run
      have hone := outcome_of_run run
      rw [addRun_eq]
      simp only
      omega
    · intro acc cost
      simp [addJudgeCost]
  · rw [(hperm.map _).sum_eq, List.map_map, ← sum_total_verdicts]
    have hsum := s.sum_aggregates (fun acc => acc.categories.total)
      (fun run => (s.verdicts run.id).total) (fun _ => 0) (fun _ _ => rfl) ?_ ?_
    · simpa [Function.comp_def, toRow, CategoryCounts.total] using hsum
    · intro acc run
      rw [addRun_eq]
      simp only [CategoryCounts.total, correct_add, partially_add, lucky_add]
      omega
    · intro acc cost
      simp [addJudgeCost]
  · rw [(hperm.map _).sum_eq, List.map_map]
    have hsum := s.sum_aggregates (fun acc => acc.costsUsd.sum)
      (fun run => (s.tables.solveCostUsd run.toPricedRun).toList.sum) (fun cost => cost.costUsd)
      (fun _ _ => rfl) ?_ ?_
    · rw [← sum_filterMap]
      simpa [Function.comp_def, totalCostUsd_toRow] using hsum
    · intro acc run
      rw [addRun_eq, List.sum_append]
    · intro acc cost
      simp [addJudgeCost]

end Snapshot

end Connections.Leaderboard

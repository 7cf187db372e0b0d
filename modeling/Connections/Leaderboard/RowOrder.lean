import Connections.Leaderboard.RowOfPair

/-!
# The leaderboard and the order of the rows it reads

None of the leaderboard's queries orders the runs, the guesses, the prompts or the evaluations.  The
rows come out the same in whatever order they are read.
-/

namespace Connections.Leaderboard

open GroupFold JobQueue

/-- The same tables, read in another order. -/
structure Snapshot.Reordered (s s' : Snapshot) : Prop where
  supportedModels : s'.tables.supportedModels = s.tables.supportedModels
  modelPrices : s'.tables.modelPrices = s.tables.modelPrices
  metadata : s'.metadata = s.metadata
  queues : s'.queues = s.queues
  totalPuzzles : s'.totalPuzzles = s.totalPuzzles
  runs : s.runs.Perm s'.runs
  guesses : s.guesses.Perm s'.guesses
  prompts : s.prompts.Perm s'.prompts
  evaluations : s.evaluations.Perm s'.evaluations

/-- Two accumulators that collected the same in another order. -/
structure LeaderboardAccumulator.Alike (a b : LeaderboardAccumulator) : Prop where
  strategyName : a.strategyName = b.strategyName
  modelName : a.modelName = b.modelName
  puzzleIds : a.puzzleIds = b.puzzleIds
  completed : a.completed = b.completed
  active : a.active = b.active
  failed : a.failed = b.failed
  lostRuns : a.lostRuns = b.lostRuns
  guessCounts : a.guessCounts.Perm b.guessCounts
  durationsMs : a.durationsMs.Perm b.durationsMs
  costsUsd : a.costsUsd.Perm b.costsUsd
  issueCounts : a.issueCounts.Perm b.issueCounts
  categories : a.categories = b.categories

/-- A mean does not depend on the order. -/
theorem mean_perm {a b : List ℚ} (h : a.Perm b) : mean a = mean b := by
  unfold mean
  rw [h.sum_eq, h.length_eq]
  by_cases hnil : b = []
  · rw [if_pos hnil, if_pos (h.trans (hnil ▸ List.Perm.refl _)).eq_nil]
  · rw [if_neg hnil, if_neg fun ha => hnil (ha ▸ h).symm.eq_nil]

/-- Sorted counts do not depend on the order. -/
theorem mergeSort_eq_of_perm {a b : List ℕ} (h : a.Perm b) : a.mergeSort = b.mergeSort := by
  have hsorted (counts : List ℕ) : counts.mergeSort.Pairwise (· ≤ ·) := by
    have htrans : ∀ x y z : ℕ, decide (x ≤ y) → decide (y ≤ z) → decide (x ≤ z) := by
      simpa using fun x y z => Nat.le_trans
    have htotal : ∀ x y : ℕ, decide (x ≤ y) || decide (y ≤ x) := by simpa using Nat.le_total
    simpa using List.pairwise_mergeSort htrans htotal counts
  exact ((List.mergeSort_perm a _).trans (h.trans (List.mergeSort_perm b _).symm)).eq_of_pairwise
    (fun _ _ _ _ hab hba => Nat.le_antisymm hab hba) (hsorted a) (hsorted b)

/-- A nullable sum does not depend on the order. -/
theorem sqlSum_perm {a b : List (Option ℤ)} (h : a.Perm b) : sqlSum a = sqlSum b := by
  have hreduce : a.reduceOption.Perm b.reduceOption := h.filterMap _
  unfold sqlSum
  rw [hreduce.sum_eq]
  by_cases hnil : b.reduceOption = []
  · rw [if_pos hnil, if_pos (hnil ▸ hreduce).eq_nil]
  · rw [if_neg hnil, if_neg fun ha => hnil (ha ▸ hreduce).symm.eq_nil]

namespace Snapshot

variable {s s' : Snapshot}

namespace Reordered

/-- The prompts of a run are the same, in another order. -/
theorem promptsOf (h : s.Reordered s') (runId : ℕ) :
    (s.promptsOf runId).Perm (s'.promptsOf runId) :=
  h.prompts.filter _

/-- The issues of a run are counted alike. -/
theorem issues (h : s.Reordered s') (runId : ℕ) : s.issues runId = s'.issues runId :=
  (h.promptsOf runId).countP_eq _

/-- The latencies of a run sum up alike. -/
theorem latencyMs (h : s.Reordered s') (runId : ℕ) : s.latencyMs runId = s'.latencyMs runId :=
  sqlSum_perm ((h.promptsOf runId).map _)

/-- The time a run took is such a sum. -/
theorem solveMs (h : s.Reordered s') : s.solveMs = s'.solveMs := by
  funext run
  simp only [Snapshot.solveMs, latencyMsByRun_eq, h.latencyMs]

/-- The judged guesses of a run are counted alike. -/
theorem verdicts (h : s.Reordered s') (runId : ℕ) : s.verdicts runId = s'.verdicts runId := by
  apply CategoryCounts.ext <;> exact h.evaluations.countP_eq _

/-- The prices are read in an order of their own, so their history is the same. -/
theorem priceHistoryByModel (h : s.Reordered s') :
    s'.tables.priceHistoryByModel = s.tables.priceHistoryByModel := by
  simp only [Tables.priceHistoryByModel, Tables.findPriceHistory, Tables.modelById,
    h.supportedModels, h.modelPrices]

/-- The prompts that pricing reads. -/
theorem pricedPrompts (h : s.Reordered s') (runId : ℕ) :
    (s.tables.promptsOf runId).Perm (s'.tables.promptsOf runId) := by
  rw [Tables.promptsOf, Tables.promptsOf, s.solvePrompts_eq, s'.solvePrompts_eq]
  exact (h.prompts.map _).filter _

/-- The token sums of a run. -/
theorem tokensByRun (h : s.Reordered s') : s.tables.tokensByRun = s'.tables.tokensByRun := by
  funext runId
  have hprompts := h.pricedPrompts runId
  rw [Tables.tokensByRun_eq, Tables.tokensByRun_eq]
  simp only [Tables.totals, sqlSum_perm (hprompts.map _)]
  by_cases hnil : s'.tables.promptsOf runId = []
  · rw [if_pos hnil, if_pos (hnil ▸ hprompts).eq_nil]
  · rw [if_neg hnil, if_neg fun hnone => hnil (hnone ▸ hprompts).symm.eq_nil]

/-- What a run cost is a sum over its calls. -/
theorem solveCostUsd (h : s.Reordered s') : s.tables.solveCostUsd = s'.tables.solveCostUsd := by
  funext run
  simp only [Tables.solveCostUsd, h.tokensByRun, h.priceHistoryByModel]

end Reordered

/-- The start of a run that was read. -/
theorem startedAtByRun_eq_some {runId : ℕ} {startedAt : ℤ} :
    s.startedAtByRun runId = some startedAt ↔
      ∃ run ∈ s.runs, run.id = runId ∧ run.startedAt = startedAt := by
  have hgen : ∀ (runs : List LeaderboardRun) (init : ℕ → Option ℤ), (runs.map (·.id)).Nodup →
      (runs.foldl (fun (map : ℕ → Option ℤ) run =>
          Function.update map run.id (some run.startedAt)) init runId = some startedAt ↔
        (∃ run ∈ runs, run.id = runId ∧ run.startedAt = startedAt) ∨
          (∀ run ∈ runs, run.id ≠ runId) ∧ init runId = some startedAt) := by
    intro runs
    induction runs with
    | nil => simp
    | cons run runs ih =>
      intro init hnodup
      obtain ⟨hnew, hrest⟩ := List.nodup_cons.mp hnodup
      rw [List.foldl_cons, ih _ hrest]
      simp only [List.exists_mem_cons_iff, List.forall_mem_cons]
      by_cases hrun : run.id = runId
      · subst hrun
        have hother : ∀ other ∈ runs, other.id ≠ run.id := by
          intro other hother hsame
          exact hnew (List.mem_map.mpr ⟨other, hother, hsame⟩)
        simp only [Function.update_self, Option.some.injEq, true_and, ne_eq, not_true_eq_false,
          false_and, or_false]
        constructor
        · rintro (hlater | ⟨-, hstart⟩)
          · exact .inr hlater
          · exact .inl hstart
        · rintro (hstart | hlater)
          · exact .inr ⟨hother, hstart⟩
          · exact .inl hlater
      · rw [Function.update_of_ne (Ne.symm hrun)]
        simp [hrun]
  have hruns := hgen s.runs (fun _ => none) s.run_ids
  simpa [startedAtByRun] using hruns

namespace Reordered

/-- When each run began is looked up by its id. -/
theorem startedAtByRun (h : s.Reordered s') : s.startedAtByRun = s'.startedAtByRun := by
  funext runId
  ext startedAt
  rw [startedAtByRun_eq_some, startedAtByRun_eq_some]
  simp only [h.runs.mem_iff]

/-- The groups of evaluations come in another order, each with the same counts and sums. -/
theorem judgeSpendRows (h : s.Reordered s') : s.judgeSpendRows.Perm s'.judgeSpendRows := by
  unfold Snapshot.judgeSpendRows Snapshot.categoryRows
  rw [List.map_map, List.map_map]
  refine ((h.evaluations.map _).dedup.map _).trans (List.Perm.of_eq (List.map_congr_left ?_))
  rintro ⟨runId, judgeModel, judgeProvider⟩ _
  have hgroup := h.evaluations.filter fun e =>
    decide ((e.strategyRunId, e.judgeModel, e.judgeProvider) = (runId, judgeModel, judgeProvider))
  simp only [Function.comp_apply, sqlSum_perm (hgroup.map _)]

/-- A group of evaluations is priced by its sums and the start of its run. -/
theorem judgeCost (h : s.Reordered s') : s.judgeCost = s'.judgeCost := by
  funext spend
  simp only [Snapshot.judgeCost, h.startedAtByRun, h.priceHistoryByModel]

/-- The groups cost the same, in another order. -/
theorem judgeCosts (h : s.Reordered s') : s.judgeCosts.Perm s'.judgeCosts := by
  rw [Snapshot.judgeCosts, Snapshot.judgeCosts, ← h.judgeCost]
  exact h.judgeSpendRows.filterMap _

/-- The pairs are those that the runs name. -/
theorem pairs (h : s.Reordered s') : s.pairs.Perm s'.pairs :=
  ((h.runs.map _).append (h.judgeCosts.map _)).dedup

/-- The runs of a pair are the same, in another order. -/
theorem runsOf (h : s.Reordered s') (pair : String × Option String) :
    (s.runsOf pair).Perm (s'.runsOf pair) :=
  h.runs.filter _

/-- A pair's accumulator collects the same. -/
theorem accumulatorOf (h : s.Reordered s') (pair : String × Option String) :
    (s.accumulatorOf pair).Alike (s'.accumulatorOf pair) := by
  have hruns := h.runsOf pair
  constructor
  · rfl
  · rfl
  · exact List.toFinset_eq_of_perm _ _ (hruns.map _)
  · exact hruns.countP_eq _
  · exact hruns.countP_eq _
  · exact hruns.countP_eq _
  · exact hruns.countP_eq _
  · simp only [Snapshot.accumulatorOf, h.guesses.count_eq]
    exact (hruns.filter _).map _
  · simp only [Snapshot.accumulatorOf, h.solveMs]
    exact (hruns.filter _).filterMap _
  · simp only [Snapshot.accumulatorOf, h.solveCostUsd]
    exact (hruns.filterMap _).append ((h.judgeCosts.filter _).map _)
  · simp only [Snapshot.accumulatorOf, h.issues]
    exact (hruns.filter _).map _
  · simp only [Snapshot.accumulatorOf, h.verdicts]
    apply CategoryCounts.ext <;> exact (hruns.map _).sum_eq

/-- The queues are the same, and so is what they are counted to. -/
theorem queuedCountsByKey (h : s.Reordered s') : s'.queuedCountsByKey = s.queuedCountsByKey := by
  simp only [Snapshot.queuedCountsByKey, h.queues]

/-- What is known of a model comes from the configuration. -/
theorem metadataByModel (h : s.Reordered s') : s'.metadataByModel = s.metadataByModel := by
  simp only [Snapshot.metadataByModel, h.supportedModels, h.metadata]

/-- Accumulators that collected the same have the same row. -/
theorem toRow (h : s.Reordered s') {a b : LeaderboardAccumulator} (hab : a.Alike b) :
    s.toRow a = s'.toRow b := by
  have hcosts : (a.costsUsd = []) = (b.costsUsd = []) := by
    rw [← List.length_eq_zero_iff, ← List.length_eq_zero_iff, hab.costsUsd.length_eq]
  simp only [Snapshot.toRow, hab.strategyName, hab.modelName, hab.puzzleIds, hab.completed,
    hab.active, hab.failed, hab.lostRuns, hab.categories, h.totalPuzzles, h.queuedCountsByKey,
    h.metadataByModel, mergeSort_eq_of_perm hab.guessCounts, mean_perm (hab.guessCounts.map _),
    mean_perm (hab.durationsMs.map _), mean_perm hab.costsUsd, mean_perm (hab.issueCounts.map _),
    hab.costsUsd.sum_eq, hcosts]

/-- Whether the names are clear does not depend on the order. -/
theorem clear (h : s.Reordered s') (hclear : s.Clear) : s'.Clear where
  runs := fun run hrun => hclear.runs run (h.runs.mem_iff.mpr hrun)
  judges := fun e he => hclear.judges e (h.evaluations.mem_iff.mpr he)

/-- The accumulated rows come in another order. -/
theorem rows (h : s.Reordered s') (hclear : s.Clear) :
    (s.aggregates.entries.map fun entry => s.toRow entry.2).Perm
      (s'.aggregates.entries.map fun entry => s'.toRow entry.2) := by
  refine (hclear.entries_perm s.toRow).trans (List.Perm.trans ?_
    ((h.clear hclear).entries_perm s'.toRow).symm)
  refine (h.pairs.map _).trans (List.Perm.of_eq (List.map_congr_left fun pair _ => ?_))
  exact h.toRow (h.accumulatorOf pair)

end Reordered

/-- The ids of the rows. -/
def rowIds (s : Snapshot) : List String := s.pairs.map fun pair => pair.2.getD pair.1

/-- Rows with distinct ids are sorted in one way. -/
theorem Reordered.sorted (h : s.Reordered s') (hclear : s.Clear) {localeLe : String → String → Bool}
    (htrans : ∀ a b c, localeLe a b → localeLe b c → localeLe a c)
    (htotal : ∀ a b, localeLe a b || localeLe b a)
    (hantisymm : ∀ a b, localeLe a b → localeLe b a → a = b) (hids : s.rowIds.Nodup) :
    (s.aggregates.entries.map fun entry => s.toRow entry.2).mergeSort
        (fun a b => localeLe a.id b.id) =
      (s'.aggregates.entries.map fun entry => s'.toRow entry.2).mergeSort
        fun a b => localeLe a.id b.id := by
  have hdistinct : ((s.aggregates.entries.map fun entry => s.toRow entry.2).map (·.id)).Nodup := by
    rw [List.map_map]
    exact (hclear.entries_perm fun acc => (s.toRow acc).id).nodup_iff.mpr hids
  have hrows := h.rows hclear
  have hpairwise (rows : List LeaderboardRow) :
      (rows.mergeSort fun a b => localeLe a.id b.id).Pairwise fun a b => localeLe a.id b.id :=
    List.pairwise_mergeSort (fun a b c => htrans a.id b.id c.id) (fun a b => htotal a.id b.id) rows
  refine List.Perm.eq_of_pairwise ?_ (hpairwise _) (hpairwise _)
    ((List.mergeSort_perm _ _).trans (hrows.trans (List.mergeSort_perm _ _).symm))
  intro a b ha hb hab hba
  exact List.inj_on_of_nodup_map hdistinct (List.mem_mergeSort.mp ha)
    (hrows.mem_iff.mpr (List.mem_mergeSort.mp hb)) (hantisymm _ _ hab hba)

/-- Read in another order, the tables give the same rows, and the same leaderboard where no two rows
share an id. -/
theorem leaderboard_ignores_read_order (h : s.Reordered s') (hclear : s.Clear)
    {localeLe : String → String → Bool}
    (htrans : ∀ a b c, localeLe a b → localeLe b c → localeLe a c)
    (htotal : ∀ a b, localeLe a b || localeLe b a)
    (hantisymm : ∀ a b, localeLe a b → localeLe b a → a = b) :
    (s.getLeaderboard localeLe).deterministic.Perm (s'.getLeaderboard localeLe).deterministic ∧
      (s.getLeaderboard localeLe).llm.Perm (s'.getLeaderboard localeLe).llm ∧
      (s.rowIds.Nodup → s.getLeaderboard localeLe = s'.getLeaderboard localeLe) := by
  have hsorted := (List.mergeSort_perm _ fun a b : LeaderboardRow => localeLe a.id b.id).trans
    ((h.rows hclear).trans (List.mergeSort_perm _ fun a b : LeaderboardRow =>
      localeLe a.id b.id).symm)
  refine ⟨hsorted.filter _, hsorted.filter _, fun hids => ?_⟩
  simp only [getLeaderboard, h.sorted hclear htrans htotal hantisymm hids]

section Reads

/-- Two runs of one model and one of a deterministic strategy. -/
def threeRuns : Snapshot where
  tables := Tables.withoutPrompts
  metadata := fun _ => ⟨none, none, none⟩
  runs := [⟨⟨1, "llm-openai", some "gpt-4.1-nano", 1000⟩, 7, .completed, some 9000⟩,
    ⟨⟨2, "order", none, 2000⟩, 7, .completed, some 4000⟩,
    ⟨⟨3, "llm-openai", some "gpt-4.1-nano", 3000⟩, 8, .failed, some 5000⟩]
  guesses := [1, 2, 1, 3]
  prompts := []
  evaluations := []
  queues := []
  totalPuzzles := 9
  run_ids := by decide
  solvePrompts_eq := rfl

/-- The same runs and guesses, the other way round. -/
def threeRunsReversed : Snapshot :=
  { threeRuns with
    runs := threeRuns.runs.reverse
    guesses := threeRuns.guesses.reverse
    run_ids := by decide }

theorem threeRuns_clear : threeRuns.Clear where
  runs := by
    have hruns : ∀ run ∈ threeRuns.runs, ':' ∉ run.strategyName.toList ∧
        run.modelName ≠ some "" := by decide
    exact hruns
  judges := by simp [threeRuns]

theorem threeRuns_reordered : threeRuns.Reordered threeRunsReversed where
  supportedModels := rfl
  modelPrices := rfl
  metadata := rfl
  queues := rfl
  totalPuzzles := rfl
  runs := (List.reverse_perm _).symm
  guesses := (List.reverse_perm _).symm
  prompts := List.Perm.refl _
  evaluations := List.Perm.refl _

/-- The order in which three runs are read makes no difference. -/
theorem three_runs_in_any_order :
    threeRuns.getLeaderboard (fun a b => decide (a ≤ b)) =
      threeRunsReversed.getLeaderboard fun a b => decide (a ≤ b) :=
  (leaderboard_ignores_read_order threeRuns_reordered threeRuns_clear
    (by simpa using fun a b c => le_trans) (by simpa using le_total)
    (by simpa using fun a b => le_antisymm)).2.2 (by decide +kernel)

/-- Three runs make two rows. -/
theorem three_runs_make_two_rows :
    (threeRuns.getLeaderboard fun a b => decide (a ≤ b)).rows.Perm
        ([("llm-openai", some "gpt-4.1-nano"), ("order", none)].map fun pair =>
          threeRuns.toRow (threeRuns.accumulatorOf pair)) := by
  have hpairs : threeRuns.pairs.Perm [("llm-openai", some "gpt-4.1-nano"), ("order", none)] := by
    decide +kernel
  exact ((leaderboard_row_for_each_pair threeRuns _ threeRuns_clear).1).trans (hpairs.map _)

end Reads

end Snapshot

end Connections.Leaderboard

import Connections.Leaderboard.RowAggregates

/-!
# The row of a strategy and a model

Where no two pairs of names share a key, each pair with a run or a judge's cost has one row, made
from its runs and costs alone, whatever order the database lists them in.
-/

namespace Connections.Leaderboard

open GroupFold JobQueue

/-! ### Keys -/

/-- Texts that end before a separator are told apart from what follows it. -/
theorem eq_of_append_separator {c : Char} {a b x y : List Char} (ha : c ∉ a) (hb : c ∉ b)
    (h : a ++ c :: x = b ++ c :: y) : a = b ∧ x = y := by
  induction a generalizing b with
  | nil =>
    cases b with
    | nil => exact ⟨rfl, (List.cons.inj h).2⟩
    | cons d b => exact absurd (by simp [(List.cons.inj h).1]) hb
  | cons d a ih =>
    cases b with
    | nil => exact absurd (by simp [(List.cons.inj h).1]) ha
    | cons e b =>
      obtain ⟨rfl, hrest⟩ := List.cons.inj h
      obtain ⟨rfl, rfl⟩ := ih (fun hmem => ha (List.mem_cons_of_mem _ hmem))
        (fun hmem => hb (List.mem_cons_of_mem _ hmem)) hrest
      exact ⟨rfl, rfl⟩

/-- A strategy's name has no colon and a model's name is not empty. -/
def ClearNames (pair : String × Option String) : Prop :=
  ':' ∉ pair.1.toList ∧ pair.2 ≠ some ""

/-- Such pairs are told apart by their keys. -/
theorem pairKey_inj {p q : String × Option String} (hp : ClearNames p) (hq : ClearNames q)
    (h : pairKey p = pairKey q) : p = q := by
  have htexts := congrArg String.toList h
  simp only [pairKey, leaderboardKey, String.toList_append] at htexts
  rw [List.append_assoc, List.append_assoc] at htexts
  obtain ⟨hstrategy, hmodel⟩ := eq_of_append_separator (c := ':') hp.1 hq.1 htexts
  have hname : p.2.getD "" = q.2.getD "" := String.toList_inj.mp (List.cons.inj hmodel).2
  apply Prod.ext (String.toList_inj.mp hstrategy)
  cases hp2 : p.2 with
  | none =>
    cases hq2 : q.2 with
    | none => rfl
    | some n =>
      rw [hp2, hq2] at hname
      exact absurd (hq2.trans (congrArg some hname.symm)) hq.2
  | some m =>
    cases hq2 : q.2 with
    | none =>
      rw [hp2, hq2] at hname
      exact absurd (hp2.trans (congrArg some hname)) hp.2
    | some n =>
      rw [hp2, hq2] at hname
      exact congrArg some hname

namespace Snapshot

variable (s : Snapshot)

/-! ### What a pair's runs come to -/

/-- The pairs with a run or a judge's cost. -/
def pairs : List (String × Option String) :=
  (s.runs.map (·.pair) ++ s.judgeCosts.map (·.pair)).dedup

/-- The runs of a pair. -/
def runsOf (pair : String × Option String) : List LeaderboardRun := s.runs.filter (·.pair = pair)

/-- The judges' costs of a pair. -/
def costsOf (pair : String × Option String) : List JudgeCost :=
  s.judgeCosts.filter (·.pair = pair)

/-- What a pair's runs and costs come to. -/
def accumulatorOf (pair : String × Option String) : LeaderboardAccumulator where
  strategyName := pair.1
  modelName := pair.2
  puzzleIds := ((s.runsOf pair).map (·.puzzleId)).toFinset
  completed := (s.runsOf pair).countP (·.status = .completed)
  active := (s.runsOf pair).countP (·.inProgress)
  failed := (s.runsOf pair).countP (·.broke)
  lostRuns := (s.runsOf pair).countP (·.status = .failed)
  guessCounts := ((s.runsOf pair).filter (·.playedOut)).map fun run => s.guesses.count run.id
  durationsMs := ((s.runsOf pair).filter (·.playedOut)).filterMap s.solveMs
  costsUsd := ((s.runsOf pair).filterMap fun run => s.tables.solveCostUsd run.toPricedRun) ++
    (s.costsOf pair).map (·.costUsd)
  issueCounts := ((s.runsOf pair).filter (·.observed)).map fun run => s.issues run.id
  categories :=
    ⟨((s.runsOf pair).map fun run => (s.verdicts run.id).correct).sum,
      ((s.runsOf pair).map fun run => (s.verdicts run.id).partially).sum,
      ((s.runsOf pair).map fun run => (s.verdicts run.id).lucky).sum⟩

/-- What adding runs does to an accumulator. -/
theorem foldl_addRun (acc : LeaderboardAccumulator) (runs : List LeaderboardRun) :
    runs.foldl s.addRun acc =
      { acc with
        puzzleIds := acc.puzzleIds ∪ (runs.map (·.puzzleId)).toFinset
        completed := acc.completed + runs.countP (·.status = .completed)
        active := acc.active + runs.countP (·.inProgress)
        failed := acc.failed + runs.countP (·.broke)
        lostRuns := acc.lostRuns + runs.countP (·.status = .failed)
        guessCounts := acc.guessCounts ++
          (runs.filter (·.playedOut)).map fun run => s.guesses.count run.id
        durationsMs := acc.durationsMs ++ (runs.filter (·.playedOut)).filterMap s.solveMs
        costsUsd := acc.costsUsd ++
          runs.filterMap fun run => s.tables.solveCostUsd run.toPricedRun
        issueCounts := acc.issueCounts ++
          (runs.filter (·.observed)).map fun run => s.issues run.id
        categories := acc.categories +
          ⟨(runs.map fun run => (s.verdicts run.id).correct).sum,
            (runs.map fun run => (s.verdicts run.id).partially).sum,
            (runs.map fun run => (s.verdicts run.id).lucky).sum⟩ } := by
  induction runs generalizing acc with
  | nil => ext <;> simp
  | cons run runs ih =>
    rw [List.foldl_cons, ih, addRun_eq]
    apply LeaderboardAccumulator.ext
    · rfl
    · rfl
    · simp
    · simp only [List.countP_cons, decide_eq_true_eq]
      omega
    · simp only [List.countP_cons]
      omega
    · simp only [List.countP_cons]
      omega
    · simp only [List.countP_cons, decide_eq_true_eq]
      omega
    · cases hrun : run.playedOut <;> simp [hrun]
    · cases hrun : run.playedOut <;> cases hms : s.solveMs run <;> simp [hrun, hms]
    · cases hcost : s.tables.solveCostUsd run.toPricedRun <;> simp [hcost]
    · cases hrun : run.observed <;> simp [hrun]
    · apply CategoryCounts.ext <;>
        simp only [correct_add, partially_add, lucky_add, List.map_cons, List.sum_cons] <;>
        omega

/-- What adding costs does to an accumulator. -/
theorem foldl_addJudgeCost (acc : LeaderboardAccumulator) (costs : List JudgeCost) :
    costs.foldl addJudgeCost acc =
      { acc with costsUsd := acc.costsUsd ++ costs.map (·.costUsd) } := by
  induction costs generalizing acc with
  | nil => simp
  | cons cost costs ih => simp [ih, addJudgeCost]

/-! ### The rows -/

/-- The names of runs and of judges are clear. -/
structure Clear : Prop where
  runs : ∀ run ∈ s.runs, ClearNames run.pair
  judges : ∀ e ∈ s.evaluations, ':' ∉ e.judgeProvider.toList ∧ e.judgeModel ≠ ""

theorem judgeCost_names {spend : JudgeSpend} {cost : JudgeCost}
    (h : s.judgeCost spend = some cost) :
    cost.strategyName = "llm-" ++ spend.judgeProvider ∧ cost.modelName = spend.judgeModel := by
  unfold judgeCost at h
  split at h
  · cases h
  · obtain ⟨startedAt, -, hrate⟩ := Option.bind_eq_some_iff.mp h
    obtain ⟨rate, -, rfl⟩ := Option.map_eq_some_iff.mp hrate
    exact ⟨rfl, rfl⟩

/-- A judge's cost goes to the row of its provider's strategy and its model. -/
theorem mem_judgeCosts {cost : JudgeCost} (h : cost ∈ s.judgeCosts) :
    ∃ e ∈ s.evaluations, cost.strategyName = "llm-" ++ e.judgeProvider ∧
      cost.modelName = e.judgeModel := by
  obtain ⟨spend, hspend, hcost⟩ := List.mem_filterMap.mp h
  obtain ⟨row, hrow, rfl⟩ := List.mem_map.mp hspend
  obtain ⟨⟨runId, judgeModel, judgeProvider⟩, hgroup, rfl⟩ := List.mem_map.mp hrow
  obtain ⟨e, he, hsame⟩ := List.mem_map.mp (List.mem_dedup.mp hgroup)
  cases hsame
  exact ⟨e, he, s.judgeCost_names hcost⟩

variable {s} in
theorem Clear.pairs (h : s.Clear) {pair : String × Option String} (hpair : pair ∈ s.pairs) :
    ClearNames pair := by
  rcases List.mem_append.mp (List.mem_dedup.mp hpair) with hrun | hcost
  · obtain ⟨run, hmem, rfl⟩ := List.mem_map.mp hrun
    exact h.runs run hmem
  · obtain ⟨cost, hmem, rfl⟩ := List.mem_map.mp hcost
    obtain ⟨e, he, hstrategy, hmodel⟩ := s.mem_judgeCosts hmem
    obtain ⟨hprovider, hname⟩ := h.judges e he
    refine ⟨?_, by simp [JudgeCost.pair, hmodel, hname]⟩
    rw [JudgeCost.pair, hstrategy, String.toList_append, List.mem_append, not_or]
    exact ⟨by decide, hprovider⟩

theorem mem_pairs_of_cost {cost : JudgeCost} (h : cost ∈ s.judgeCosts) : cost.pair ∈ s.pairs :=
  List.mem_dedup.mpr (List.mem_append_right _ (List.mem_map.mpr ⟨cost, h, rfl⟩))

variable {s} in
/-- The runs under a pair's key are the pair's. -/
theorem Clear.runs_filter (h : s.Clear) {pair : String × Option String} (hpair : pair ∈ s.pairs) :
    s.runs.filter (pairKey ·.pair = pairKey pair) = s.runsOf pair := by
  refine List.filter_congr fun run hrun => ?_
  rw [decide_eq_decide]
  exact ⟨pairKey_inj (h.runs run hrun) (h.pairs hpair), congrArg pairKey⟩

variable {s} in
/-- The costs under a pair's key are the pair's. -/
theorem Clear.costs_filter (h : s.Clear) {pair : String × Option String} (hpair : pair ∈ s.pairs) :
    s.judgeCosts.filter (pairKey ·.pair = pairKey pair) = s.costsOf pair := by
  refine List.filter_congr fun cost hcost => ?_
  rw [decide_eq_decide]
  exact ⟨pairKey_inj (h.pairs (s.mem_pairs_of_cost hcost)) (h.pairs hpair), congrArg pairKey⟩

variable {s} in
/-- The accumulator under a pair's key. -/
theorem Clear.get?_aggregates (h : s.Clear) {pair : String × Option String}
    (hpair : pair ∈ s.pairs) :
    s.aggregates.get? (pairKey pair) = some (s.accumulatorOf pair) := by
  have hruns := h.runs_filter hpair
  have hcosts := h.costs_filter hpair
  -- The accumulator after the first pass, if the pair has a run.
  have hfirst : s.runAggregates.get? (pairKey pair) =
      if s.runsOf pair = [] then none
      else some ((s.runsOf pair).foldl s.addRun (createLeaderboardAccumulator pair.1 pair.2)) := by
    rw [runAggregates, OrderedMap.get?_collect, hruns]
    cases hlist : s.runsOf pair with
    | nil => simp [OrderedMap.get?, OrderedMap.empty]
    | cons run rest =>
      have hrun : run ∈ s.runsOf pair := by simp [hlist]
      have hnames : run.pair = pair := of_decide_eq_true (List.mem_filter.mp hrun).2
      simp [OrderedMap.get?, OrderedMap.empty, ← hnames, LeaderboardRun.pair]
  have hdone : (s.costsOf pair).foldl addJudgeCost
      ((s.runsOf pair).foldl s.addRun (createLeaderboardAccumulator pair.1 pair.2)) =
        s.accumulatorOf pair := by
    rw [foldl_addJudgeCost, foldl_addRun]
    simp only [createLeaderboardAccumulator, accumulatorOf, Finset.empty_union, Nat.zero_add,
      List.nil_append]
    congr 1
    apply CategoryCounts.ext <;> simp
  rw [aggregates, OrderedMap.get?_collect, hcosts, hfirst, ← hdone]
  cases hcostsOf : s.costsOf pair with
  | nil =>
    have hsome : s.runsOf pair ≠ [] := by
      rcases List.mem_append.mp (List.mem_dedup.mp hpair) with hrun | hcost
      · obtain ⟨run, hmem, rfl⟩ := List.mem_map.mp hrun
        exact List.ne_nil_of_mem (List.mem_filter.mpr ⟨hmem, by simp⟩)
      · obtain ⟨cost, hmem, rfl⟩ := List.mem_map.mp hcost
        have hcost : cost ∈ s.costsOf cost.pair := List.mem_filter.mpr ⟨hmem, by simp⟩
        rw [hcostsOf] at hcost
        cases hcost
    rw [if_neg hsome]
    rfl
  | cons cost rest =>
    have hcost : cost ∈ s.costsOf pair := by simp [hcostsOf]
    have hnames : cost.pair = pair := of_decide_eq_true (List.mem_filter.mp hcost).2
    have hcreate : createLeaderboardAccumulator cost.strategyName (some cost.modelName) =
        createLeaderboardAccumulator pair.1 pair.2 := by rw [← hnames]; rfl
    simp only [hcreate]
    by_cases hnone : s.runsOf pair = []
    · rw [if_pos hnone, hnone]
      rfl
    · rw [if_neg hnone]
      rfl

/-- The keys of the accumulators are those of the pairs. -/
theorem mem_keys_aggregates (key : String) :
    key ∈ s.aggregates.keys ↔ ∃ pair ∈ s.pairs, pairKey pair = key := by
  rw [aggregates, OrderedMap.mem_keys_collect, runAggregates, OrderedMap.mem_keys_collect]
  simp only [pairs, List.mem_dedup, List.mem_append, List.mem_map, OrderedMap.empty,
    OrderedMap.keys, List.map_nil, List.not_mem_nil, false_or]
  constructor
  · rintro (⟨run, hrun, hkey⟩ | ⟨cost, hcost, hkey⟩)
    · exact ⟨run.pair, .inl ⟨run, hrun, rfl⟩, hkey⟩
    · exact ⟨cost.pair, .inr ⟨cost, hcost, rfl⟩, hkey⟩
  · rintro ⟨pair, ⟨run, hrun, rfl⟩ | ⟨cost, hcost, rfl⟩, hkey⟩
    · exact .inl ⟨run, hrun, hkey⟩
    · exact .inr ⟨cost, hcost, hkey⟩

variable {s} in
/-- The accumulators, pair by pair. -/
theorem Clear.entries_perm (h : s.Clear) {β : Type} (f : LeaderboardAccumulator → β) :
    (s.aggregates.entries.map fun entry => f entry.2).Perm
      (s.pairs.map fun pair => f (s.accumulatorOf pair)) := by
  let listed : OrderedMap String LeaderboardAccumulator :=
    { entries := s.pairs.map fun pair => (pairKey pair, s.accumulatorOf pair)
      nodup_keys := by
        rw [List.map_map]
        refine List.Nodup.map_on ?_ (List.nodup_dedup _)
        intro p hp q hq hkey
        exact pairKey_inj (h.pairs hp) (h.pairs hq) hkey }
  have hlisted : ∀ pair ∈ s.pairs, listed.get? (pairKey pair) = some (s.accumulatorOf pair) :=
    fun pair hpair => OrderedMap.get?_eq_some.mpr (List.mem_map.mpr ⟨pair, hpair, rfl⟩)
  have hperm : (s.aggregates.entries.map fun entry => f entry.2).Perm
      (listed.entries.map fun entry => f entry.2) := OrderedMap.map_entries_perm ?_ ?_
  · simpa [listed, List.map_map, Function.comp_def] using hperm
  · intro key
    rw [mem_keys_aggregates]
    simp [listed, OrderedMap.keys]
  · intro key a a' ha ha'
    obtain ⟨pair, hpair, rfl⟩ := (s.mem_keys_aggregates key).mp
      (by_contra fun hnot => by rw [OrderedMap.get?_eq_none.mpr hnot] at ha; cases ha)
    rw [h.get?_aggregates hpair] at ha
    rw [hlisted pair hpair] at ha'
    rw [← Option.some.inj ha, ← Option.some.inj ha']

/-! ### The queues -/

/-- The job waits under a key; where the names are clear, the key is that of one strategy and
model. -/
def waitsFor (key : String) (job : Job String JobData) : Bool :=
  match job.data with
  | .runStrategy data =>
    data.strategyName ≠ "" && leaderboardKey data.strategyName data.model = key
  | .evaluateCategory _ => false

/-- The waiting jobs of a key, over all queues: the pages hold each job once. -/
theorem queuedCountsByKey_eq (key : String) : s.queuedCountsByKey key =
    (s.queues.map fun queue => queue.jobs.countP fun job =>
      waitsFor key job && decide (job.state ∈ [JobState.waiting, .delayed])).sum := by
  have hcount : ∀ (jobs : List (Job String JobData)) (init : String → ℕ),
      jobs.foldl (fun counts job =>
        match job.data with
        | .runStrategy data =>
          if data.strategyName = "" then counts
          else
            let key := leaderboardKey data.strategyName data.model
            Function.update counts key (counts key + 1)
        | .evaluateCategory _ => counts) init key = init key + jobs.countP (waitsFor key) := by
    intro jobs
    induction jobs with
    | nil => simp
    | cons job jobs ih =>
      intro init
      rw [List.foldl_cons, ih, List.countP_cons]
      cases hdata : job.data with
      | evaluateCategory id => simp [waitsFor, hdata]
      | runStrategy data =>
        by_cases hname : data.strategyName = ""
        · simp [waitsFor, hdata, hname]
        · by_cases hkey : leaderboardKey data.strategyName data.model = key
          · subst hkey
            simp only [hname, if_false, Function.update_self, waitsFor, hdata, ne_eq,
              not_false_eq_true, decide_true, Bool.and_self, if_true]
            omega
          · simp [waitsFor, hdata, hname, hkey, Function.update_of_ne (Ne.symm hkey)]
  refine (hcount _ _).trans ?_
  rw [Nat.zero_add]
  induction s.queues with
  | nil => rfl
  | cons queue queues ih =>
    rw [List.flatMap_cons, List.countP_append, ih, List.map_cons, List.sum_cons,
      (queue.readPages_zero_perm (by decide) leaderboardPageSize _).countP_eq, List.countP_filter]

/-! ### The leaderboard -/

/-- Where the names are clear, the leaderboard has one row for each strategy and model with a run or
a judge's cost: the row of what its runs and costs come to, with the jobs that wait for it in any of
the queues. -/
theorem leaderboard_row_for_each_pair (localeLe : String → String → Bool) (h : s.Clear) :
    (s.getLeaderboard localeLe).rows.Perm
        (s.pairs.map fun pair => s.toRow (s.accumulatorOf pair)) ∧
      s.pairs.Nodup ∧
      ∀ pair, (s.toRow (s.accumulatorOf pair)).progress.queued =
        (s.queues.map fun queue => queue.jobs.countP fun job =>
          waitsFor (pairKey pair) job &&
            decide (job.state ∈ [JobState.waiting, .delayed])).sum :=
  ⟨(s.getLeaderboard_perm localeLe).trans (h.entries_perm s.toRow), List.nodup_dedup _,
    fun pair => s.queuedCountsByKey_eq (pairKey pair)⟩

end Snapshot

end Connections.Leaderboard

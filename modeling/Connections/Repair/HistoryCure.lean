import Connections.Repair.RolledBackBoard
import Connections.Repair.UsableTurns

/-!
# The history behind a repaired run

The repair for lost histories deletes the rows from the trigger on.  What the next retry starts from
is the call before the trigger, and that call may have failed without leaving a request as well.
-/

namespace Connections

/-- Turns are found or not. -/
instance : DecidablePred FindsTurns := fun requestBody =>
  decidable_of_iff ((requestBody.bind priorMessages).any (!·.isEmpty)) <| by
    simp [FindsTurns, Option.any_eq_true]

/-- A call comes no later than another one, in the order that the runner looks for the latest in. -/
def SolvePrompt.NoLater (a b : SolvePrompt) : Prop :=
  a.promptNumber < b.promptNumber ∨
    (a.promptNumber = b.promptNumber ∧ a.attemptNumber ≤ b.attemptNumber)

instance : DecidableRel SolvePrompt.NoLater := fun _ _ => inferInstanceAs (Decidable (_ ∨ _))

/-- The latest call of a run, whatever its status. -/
def loadLatestPrompt (prompts : List SolvePrompt) : Option SolvePrompt :=
  (prompts.insertionSort fun a b => b.NoLater a).head?

/-- The number of the first call that a manual retry made. -/
def FirstRetry (prompts : List SolvePrompt) (n : ℕ) : Prop :=
  ∃ retry ∈ prompts, retry.manualRetry ∧ retry.promptNumber = n ∧
    ∀ other ∈ prompts, other.manualRetry → n ≤ other.promptNumber

/-- The call that comes last before the trigger, the failed call that the first manual retry took
up. -/
def LastBeforeTrigger (prompts : List SolvePrompt) (prompt : SolvePrompt) : Prop :=
  ∃ n, FirstRetry prompts n ∧ prompt ∈ prompts ∧ prompt.promptNumber + 1 < n ∧
    ∀ other ∈ prompts, other.promptNumber + 1 < n → other.NoLater prompt

/-! ### The first row of a sorted list -/

/-- What is found first in a sorted list comes before everything else that could be found. -/
theorem find?_insertionSort {α : Type} (r : α → α → Prop) [DecidableRel r] [Std.Total r]
    [IsTrans α r] {p : α → Bool} {as : List α} {a : α}
    (h : (as.insertionSort r).find? p = some a) : a ∈ as ∧ p a ∧ ∀ b ∈ as, p b → r a b := by
  refine ⟨(List.mem_insertionSort r).mp (List.mem_of_find?_eq_some h), List.find?_some h, ?_⟩
  intro b hb hp
  obtain ⟨-, before, after, hsplit, hbefore⟩ := List.find?_eq_some_iff_append.mp h
  have hsorted := List.pairwise_insertionSort r as
  rw [← List.mem_insertionSort r, hsplit] at hb
  rw [hsplit] at hsorted
  rcases List.mem_append.mp hb with hb | hb
  · have hnot := hbefore b hb
    simp [hp] at hnot
  · rcases List.mem_cons.mp hb with rfl | hb
    · rcases Std.Total.total (r := r) b b with hself | hself <;> exact hself
    · exact (List.pairwise_cons.mp (List.pairwise_append.mp hsorted).2.1).1 b hb

theorem head?_eq_find? {α : Type} (as : List α) : as.head? = as.find? fun _ => true := by
  cases as <;> rfl

/-- The latest call is one that no other call comes after. -/
theorem loadLatestPrompt_eq_some_iff {prompts : List SolvePrompt}
    (hkeys : (prompts.map fun p => (p.promptNumber, p.attemptNumber)).Nodup)
    {latest : SolvePrompt} : loadLatestPrompt prompts = some latest ↔
      latest ∈ prompts ∧ ∀ other ∈ prompts, other.NoLater latest := by
  have : Std.Total fun a b : SolvePrompt => b.NoLater a :=
    ⟨fun a b => by simp only [SolvePrompt.NoLater]; omega⟩
  have : IsTrans SolvePrompt fun a b => b.NoLater a :=
    ⟨fun a b c => by simp only [SolvePrompt.NoLater]; omega⟩
  have hfirst : ∀ found, loadLatestPrompt prompts = some found →
      found ∈ prompts ∧ ∀ other ∈ prompts, other.NoLater found := by
    intro found hfound
    rw [loadLatestPrompt, head?_eq_find?] at hfound
    obtain ⟨hmem, -, hlast⟩ := find?_insertionSort _ hfound
    exact ⟨hmem, fun other hother => hlast other hother rfl⟩
  refine ⟨hfirst latest, ?_⟩
  rintro ⟨hmem, hlast⟩
  cases hfound : loadLatestPrompt prompts with
  | none =>
    rw [loadLatestPrompt, List.head?_eq_none_iff] at hfound
    have hin := (List.mem_insertionSort fun a b : SolvePrompt => b.NoLater a).mpr hmem
    rw [hfound] at hin
    cases hin
  | some found =>
    obtain ⟨hin, hnone⟩ := hfirst found hfound
    have hle := hlast found hin
    have hge := hnone latest hmem
    simp only [SolvePrompt.NoLater] at hle hge
    rw [List.inj_on_of_nodup_map hkeys hin hmem (by simp only [Prod.mk.injEq]; omega)]

/-- Where no two calls have one number, the runner reads the request of the latest call. -/
theorem latestRequestBody_eq {prompts : List SolvePrompt}
    (hnumbers : (prompts.map (·.promptNumber)).Nodup) :
    RunWorld.latestRequestBody prompts = (loadLatestPrompt prompts).bind (·.requestBody) := by
  have : Std.Total fun a b : SolvePrompt => b.promptNumber ≤ a.promptNumber :=
    ⟨fun a b => Nat.le_total _ _⟩
  have : IsTrans SolvePrompt fun a b => b.promptNumber ≤ a.promptNumber :=
    ⟨fun a b c hab hbc => Nat.le_trans hbc hab⟩
  have hkeys : (prompts.map fun p => (p.promptNumber, p.attemptNumber)).Nodup := by
    refine List.Nodup.of_map Prod.fst ?_
    rwa [List.map_map]
  unfold RunWorld.latestRequestBody
  cases hhead : (prompts.insertionSort fun a b => b.promptNumber ≤ a.promptNumber).head? with
  | none =>
    have hnil : prompts = [] := by
      rw [List.head?_eq_none_iff] at hhead
      simpa [hhead] using List.perm_insertionSort (fun a b => b.promptNumber ≤ a.promptNumber)
        prompts
    rw [hnil]
    rfl
  | some latest =>
    rw [head?_eq_find?] at hhead
    obtain ⟨hmem, -, hlast⟩ := find?_insertionSort _ hhead
    have hlatest : loadLatestPrompt prompts = some latest := by
      refine (loadLatestPrompt_eq_some_iff hkeys).mpr ⟨hmem, fun other hother => ?_⟩
      rcases Nat.lt_or_eq_of_le (hlast other hother rfl) with hlt | hsame
      · exact .inl hlt
      · rw [List.inj_on_of_nodup_map hnumbers hother hmem hsame]
        exact .inr ⟨rfl, Nat.le_refl _⟩
    rw [hlatest]

/-! ### The plan -/

/-- The number of the first manual retry is one. -/
theorem FirstRetry.unique {prompts : List SolvePrompt} {m n : ℕ} (hm : FirstRetry prompts m)
    (hn : FirstRetry prompts n) : m = n := by
  obtain ⟨a, ha, hretry, rfl, hfirst⟩ := hm
  obtain ⟨b, hb, hretry', rfl, hfirst'⟩ := hn
  exact Nat.le_antisymm (hfirst b hb hretry') (hfirst' a ha hretry)

/-- What the audit reports: the first manual retry and the row before it, which left no turns behind
although an earlier call had been answered. -/
theorem findManualRetryHistoryLoss_spec {prompts : List SolvePrompt} {loss : ManualRetryHistoryLoss}
    (h : findManualRetryHistoryLoss prompts = some loss) :
    FirstRetry prompts loss.retryPromptNumber ∧
      loss.triggerPromptNumber + 1 = loss.retryPromptNumber ∧
      (∃ answered ∈ prompts, answered.promptNumber < loss.triggerPromptNumber ∧
        answered.status = .parsed) ∧
      ∃ trigger ∈ prompts, trigger.promptNumber = loss.triggerPromptNumber ∧
        ¬ HasTurns trigger.requestBody := by
  have : Std.Total fun a b : SolvePrompt => a.promptNumber ≤ b.promptNumber :=
    ⟨fun a b => Nat.le_total _ _⟩
  have : IsTrans SolvePrompt fun a b => a.promptNumber ≤ b.promptNumber :=
    ⟨fun a b c => Nat.le_trans⟩
  simp only [findManualRetryHistoryLoss, Option.bind_eq_bind, Option.bind_eq_some_iff,
    Option.ite_none_right_eq_some, Option.some.injEq] at h
  obtain ⟨retry, hretry, trigger, htrigger, ⟨hanswered, hlost⟩, rfl⟩ := h
  obtain ⟨hmem, hmanual, hfirst⟩ := find?_insertionSort _ hretry
  obtain ⟨htmem, hnumber, -⟩ := find?_insertionSort _ htrigger
  obtain ⟨answered, hamem, hparsed⟩ := List.any_eq_true.mp hanswered
  simp only [Bool.and_eq_true, decide_eq_true_eq] at hparsed hnumber
  refine ⟨⟨retry, hmem, hmanual, rfl, hfirst⟩, hnumber,
    ⟨answered, (List.mem_insertionSort _).mp hamem, hparsed⟩, trigger, htmem, rfl, ?_⟩
  rwa [hasReconstructableHistory_iff] at hlost

/-- The rows that a plan leaves are those before its cutoff. -/
theorem RunTables.applyPlan_prompts {t : RunTables} (hids : (t.prompts.map (·.id)).Nodup)
    (plan : RollbackPlan) (now : ℕ) :
    (t.applyPlan plan now).prompts =
      t.prompts.filter (·.row.promptNumber < plan.cutoffPromptNumber) := by
  refine List.filter_congr fun prompt hprompt => ?_
  rw [decide_eq_decide, List.mem_map]
  constructor
  · intro hkept
    by_contra hcut
    exact hkept ⟨prompt, List.mem_filter.mpr ⟨hprompt, by simpa using hcut⟩, rfl⟩
  · rintro hlt ⟨other, hother, hid⟩
    obtain ⟨hmem, hcut⟩ := List.mem_filter.mp hother
    obtain rfl := List.inj_on_of_nodup_map hids hmem hprompt hid
    have hle := of_decide_eq_true hcut
    omega

/-- The latest row that a repair of a lost history leaves is the call before the trigger. -/
theorem latest_of_repair {t : RunTables} {originalWords : List String} {plan : RollbackPlan}
    (hids : (t.prompts.map (·.id)).Nodup)
    (hkeys : (t.prompts.map fun p => (p.row.promptNumber, p.row.attemptNumber)).Nodup)
    (hplan : RepairScript.manualRetryHistoryLoss.plan originalWords t = some plan) (now : ℕ)
    (latest : SolvePrompt) :
    loadLatestPrompt ((t.applyPlan plan now).prompts.map (·.row)) = some latest ↔
      LastBeforeTrigger (t.prompts.map (·.row)) latest := by
  obtain ⟨repair, hrepair, rfl⟩ := Option.map_eq_some_iff.mp hplan
  obtain ⟨loss, hloss, rfl⟩ := Option.map_eq_some_iff.mp hrepair
  obtain ⟨hfirst, hretry, -, -⟩ := findManualRetryHistoryLoss_spec hloss
  rw [t.applyPlan_prompts hids, loadLatestPrompt_eq_some_iff ?_]
  · have hmem : ∀ row, row ∈ (t.prompts.filter (·.row.promptNumber < loss.triggerPromptNumber)).map
        (·.row) ↔ row ∈ t.prompts.map (·.row) ∧ row.promptNumber + 1 < loss.retryPromptNumber := by
      intro row
      simp only [List.mem_map, List.mem_filter, decide_eq_true_eq, ← hretry,
        Nat.add_lt_add_iff_right]
      constructor
      · rintro ⟨prompt, ⟨hprompt, hlt⟩, rfl⟩
        exact ⟨⟨prompt, hprompt, rfl⟩, hlt⟩
      · rintro ⟨⟨prompt, hprompt, rfl⟩, hlt⟩
        exact ⟨prompt, ⟨hprompt, hlt⟩, rfl⟩
    simp only [hmem]
    constructor
    · rintro ⟨⟨hin, hlt⟩, hlast⟩
      exact ⟨_, hfirst, hin, hlt, fun other hother hbefore => hlast other ⟨hother, hbefore⟩⟩
    · rintro ⟨n, hn, hin, hlt, hlast⟩
      obtain rfl := hfirst.unique hn
      exact ⟨⟨hin, hlt⟩, fun other hother => hlast other hother.1 hother.2⟩
  · rw [List.map_map]
    exact hkeys.sublist (List.filter_sublist.map _)

/-- The repair leaves a run whose latest row has turns for the next retry just when the last call
before the trigger was answered, or failed with a request that has turns. -/
theorem repair_cures_iff (t : RunTables) (originalWords : List String) (plan : RollbackPlan)
    (now : ℕ) (hids : (t.prompts.map (·.id)).Nodup)
    (hkeys : (t.prompts.map fun p => (p.row.promptNumber, p.row.attemptNumber)).Nodup)
    (hplan : RepairScript.manualRetryHistoryLoss.plan originalWords t = some plan)
    (hanswered : ∀ prompt ∈ t.prompts, prompt.row.status = .parsed →
      FindsTurns prompt.row.requestBody) :
    (∃ latest, loadLatestPrompt ((t.applyPlan plan now).prompts.map (·.row)) = some latest ∧
      FindsTurns latest.requestBody) ↔
      ∃ prompt, LastBeforeTrigger (t.prompts.map (·.row)) prompt ∧
        (prompt.status = .parsed ∨ FindsTurns prompt.requestBody) := by
  simp only [latest_of_repair hids hkeys hplan now]
  constructor
  · rintro ⟨latest, hlast, hturns⟩
    exact ⟨latest, hlast, .inr hturns⟩
  · rintro ⟨prompt, hlast, hparsed | hturns⟩
    · obtain ⟨n, hn, hin, hlt⟩ := hlast
      obtain ⟨row, hrow, rfl⟩ := List.mem_map.mp hin
      exact ⟨row.row, ⟨n, hn, hin, hlt⟩, hanswered row hrow hparsed⟩
    · exact ⟨prompt, hlast, hturns⟩

namespace RunWorld

section Runs

variable {text : TextOps} {limits : RunLimits} {puzzle : Puzzle} {strategyName : String}
  {runId trialNumber : ℕ}

/-- The calls of a run are stored in their order, numbered from one. -/
theorem promptNumbers_of_reaches {ok : RunWorld → RunEvent → Prop} {w : RunWorld} {rows : RunRows}
    (hrun : Run.Reaches (step text limits puzzle strategyName runId trialNumber) ok fresh w)
    (hrows : w.rows = some rows) :
    rows.prompts.map (·.promptNumber) = List.range' 1 rows.prompts.length := by
  obtain ⟨calls, hcalls, hprompts, -⟩ := (reaches_callsRecorded hrun).stored rows hrows
  rw [hprompts, List.map_map, List.length_map]
  exact hcalls.promptNumbers

/-- In a run the last call before the trigger is the second one before the first call of a manual
retry. -/
theorem lastBeforeTrigger_iff {ok : RunWorld → RunEvent → Prop} {w : RunWorld} {rows : RunRows}
    (hrun : Run.Reaches (step text limits puzzle strategyName runId trialNumber) ok fresh w)
    (hrows : w.rows = some rows) (prompt : SolvePrompt) :
    LastBeforeTrigger rows.prompts prompt ↔
      prompt ∈ rows.prompts ∧ FirstRetry rows.prompts (prompt.promptNumber + 2) := by
  have hnumbers := promptNumbers_of_reaches hrun hrows
  have hin : ∀ m, m ∈ List.range' 1 rows.prompts.length ↔
      ∃ other ∈ rows.prompts, other.promptNumber = m := by
    intro m
    rw [← hnumbers, List.mem_map]
  have hnodup : (rows.prompts.map (·.promptNumber)).Nodup := by
    rw [hnumbers]
    exact List.nodup_range'
  constructor
  · rintro ⟨n, hn, hmem, hlt, hlast⟩
    obtain ⟨retry, hretry, -, hnumber, -⟩ := id hn
    have hretryIn := (hin n).mpr ⟨retry, hretry, hnumber⟩
    have hpromptIn := (hin prompt.promptNumber).mpr ⟨prompt, hmem, rfl⟩
    rw [List.mem_range'_1] at hretryIn hpromptIn
    -- The call right before the trigger is stored, and comes no later than the prompt.
    obtain ⟨before, hbefore, hbeforeNumber⟩ := (hin (n - 2)).mp <| by
      rw [List.mem_range'_1]
      omega
    have hle := hlast before hbefore (by omega)
    simp only [SolvePrompt.NoLater] at hle
    have hsame : prompt.promptNumber + 2 = n := by omega
    exact ⟨hmem, hsame ▸ hn⟩
  · rintro ⟨hmem, hfirst⟩
    refine ⟨_, hfirst, hmem, by omega, fun other hother hlt => ?_⟩
    rcases Nat.lt_or_ge other.promptNumber prompt.promptNumber with hless | hge
    · exact .inl hless
    · rw [List.inj_on_of_nodup_map hnodup hother hmem (by omega)]
      exact .inr ⟨rfl, Nat.le_refl _⟩

end Runs

/-- A reply that came back with the request it answers. -/
def answeredCall (words : List String) : SolveStepOutcome :=
  .ok { response := "", groups := [words], proposalWords := [some words], categoryByGroup := []
        textIssues := [], model := "gemini-3-flash", contextWindow := none, latencyMs := 0
        usage := none
        requestBody := some (encodeTurns .messages [⟨.user, "Group the items."⟩]) }

/-- A run that solves a group, loses some calls in a row, and is retried by hand. -/
def losesCalls (lost : ℕ) : List RunEvent :=
  [.load 0 (some "gemini-3-flash") none none false none, .enter 0 false,
    .iterate 1 none (answeredCall ["ANT", "BEE", "FLY", "GNAT"])] ++
  List.replicate lost (.iterate 2 none lostCall) ++
  [.retry, .load 3 (some "gemini-3-flash") none none true none, .enter 3 false,
    .iterate 4 none (answeredCall ["ASH", "ELM", "FIR", "OAK"])]

/-- The default limits, with a run that ends in an error after some failed calls. -/
def errorAfter (failures : ℕ) : RunLimits := { defaultLimits with llmMaxModelErrors := failures }

/-- A run that lost one call is cured by the repair. -/
theorem repair_cures_one_lost_call :
    ∃ (rows : RunRows) (plan : RollbackPlan), plan.cutoffPromptNumber = 2 ∧
      ((∃ latest, loadLatestPrompt ((rows.tables.applyPlan plan 5).prompts.map (·.row)) =
          some latest ∧ FindsTurns latest.requestBody) ↔
        ∃ prompt, LastBeforeTrigger (rows.tables.prompts.map (·.row)) prompt ∧
          (prompt.status = .parsed ∨ FindsTurns prompt.requestBody)) := by
  let plan : RollbackPlan := ⟨2, ["ASH", "ELM", "FIR", "OAK"], [2]⟩
  obtain ⟨w, -, hflagged⟩ := Run.exists_reaches
    (step asciiText (errorAfter 1) insectsAndTrees "llm-google" 1 1) Run.always fresh (losesCalls 1)
    (fun w => w.rows.any fun rows =>
      (rows.tables.prompts.map (·.id)).Nodup ∧
      (rows.tables.prompts.map fun p => (p.row.promptNumber, p.row.attemptNumber)).Nodup ∧
      RepairScript.manualRetryHistoryLoss.plan
        (computeInitialWordOrder asciiText insectsAndTrees "llm-google") rows.tables = some plan ∧
      ∀ prompt ∈ rows.tables.prompts, prompt.row.status = .parsed →
        FindsTurns prompt.row.requestBody) (by decide)
  obtain ⟨rows, -, hplanned⟩ := (Option.any_eq_true _ _).mp hflagged
  obtain ⟨hids, hkeys, hplan, hanswered⟩ := of_decide_eq_true hplanned
  exact ⟨rows, plan, rfl, repair_cures_iff _ _ plan 5 hids hkeys hplan hanswered⟩

/-- Of two calls lost in a row the repair leaves the first one, and the next retry has no turns
either. -/
theorem repair_leaves_first_lost_call :
    ∃ (w : RunWorld) (rows : RunRows) (plan : RollbackPlan) (latest : SolvePrompt),
      Run.Reaches (step asciiText (errorAfter 2) insectsAndTrees "llm-google" 1 1) Run.always
        fresh w ∧ w.rows = some rows ∧
      RepairScript.manualRetryHistoryLoss.plan
        (computeInitialWordOrder asciiText insectsAndTrees "llm-google") rows.tables = some plan ∧
      (∀ prompt ∈ rows.tables.prompts, prompt.row.status = .parsed →
        FindsTurns prompt.row.requestBody) ∧
      loadLatestPrompt ((rows.tables.applyPlan plan 5).prompts.map (·.row)) = some latest ∧
      ¬ FindsTurns latest.requestBody := by
  let plan : RollbackPlan := ⟨3, ["ASH", "ELM", "FIR", "OAK"], [2]⟩
  obtain ⟨w, hrun, hflagged⟩ := Run.exists_reaches
    (step asciiText (errorAfter 2) insectsAndTrees "llm-google" 1 1) Run.always fresh (losesCalls 2)
    (fun w => w.rows.any fun rows =>
      RepairScript.manualRetryHistoryLoss.plan
        (computeInitialWordOrder asciiText insectsAndTrees "llm-google") rows.tables = some plan ∧
      (∀ prompt ∈ rows.tables.prompts, prompt.row.status = .parsed →
        FindsTurns prompt.row.requestBody) ∧
      (loadLatestPrompt ((rows.tables.applyPlan plan 5).prompts.map (·.row))).any fun latest =>
        ¬ FindsTurns latest.requestBody) (by decide)
  obtain ⟨rows, hrows, hplanned⟩ := (Option.any_eq_true _ _).mp hflagged
  obtain ⟨hplan, hanswered, hlost⟩ := of_decide_eq_true hplanned
  obtain ⟨latest, hlatest, hnone⟩ := (Option.any_eq_true _ _).mp hlost
  exact ⟨w, rows, plan, latest, hrun, hrows, hplan, hanswered, hlatest, of_decide_eq_true hnone⟩

end RunWorld

end Connections

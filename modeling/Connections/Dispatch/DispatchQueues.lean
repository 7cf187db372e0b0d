import Connections.Dispatch.RunFleet
import Connections.Dispatch.TrialUniqueness

/-!
# Whether a dispatch leaves a trial queued

The number of a new trial comes from the rows and the live jobs, its job id from the number, and
the queue ignores an id it still knows.  A dispatch that returns therefore leaves a trial of its
model queued exactly when one was pending already or no retained job holds the id of the next
number.
-/

namespace Connections

open JobQueue

/-! ### The next number -/

/-- Merging trials keeps every number that was there and adds theirs. -/
theorem mem_numbers_foldl_setTrial {trials bound : List QueuedTrial} {n : ℕ} :
    n ∈ (trials.foldl setTrial bound).map (·.trialNumber) ↔
      n ∈ bound.map (·.trialNumber) ∨ n ∈ trials.map (·.trialNumber) := by
  induction trials generalizing bound with
  | nil => simp
  | cons t trials ih =>
    have hset : n ∈ (setTrial bound t).map (·.trialNumber) ↔
        n = t.trialNumber ∨ n ∈ bound.map (·.trialNumber) := by
      simp only [setTrial, List.map_cons, List.mem_cons, List.mem_map, List.mem_filter]
      constructor
      · rintro (rfl | ⟨u, ⟨hu, -⟩, rfl⟩)
        · exact .inl rfl
        · exact .inr ⟨u, hu, rfl⟩
      · rintro (rfl | ⟨u, hu, rfl⟩)
        · exact .inl rfl
        · by_cases heq : u.trialNumber = t.trialNumber
          · exact .inl heq
          · exact .inr ⟨u, ⟨hu, by simpa using heq⟩, rfl⟩
    rw [List.foldl_cons, ih, hset, List.map_cons, List.mem_cons]
    tauto

/-- The highest number is one of them, or the one to begin with. -/
theorem foldl_max_mem (numbers : List ℕ) (b : ℕ) :
    numbers.foldl max b = b ∨ numbers.foldl max b ∈ numbers := by
  induction numbers generalizing b with
  | nil => exact .inl rfl
  | cons n numbers ih =>
    rcases ih (max b n) with h | h
    · rw [List.foldl_cons, h]
      rcases Nat.le_total b n with hle | hle
      · right
        rw [Nat.max_eq_right hle]
        exact List.mem_cons_self
      · exact .inl (Nat.max_eq_left hle)
    · exact .inr (List.mem_cons_of_mem _ h)

/-- The largest of some numbers does not depend on how they are listed. -/
theorem foldl_max_congr {xs ys : List ℕ} (h : ∀ n, n ∈ xs ↔ n ∈ ys) (b : ℕ) :
    xs.foldl max b = ys.foldl max b := by
  have hle {us vs : List ℕ} (hmem : ∀ n ∈ us, n ∈ vs) : us.foldl max b ≤ vs.foldl max b := by
    rcases foldl_max_mem us b with heq | hmax
    · rw [heq]
      exact le_foldl_max (.inl (Nat.le_refl b))
    · exact le_foldl_max (.inr (hmem _ hmax))
  exact Nat.le_antisymm (hle fun n hn => (h n).mp hn) (hle fun n hn => (h n).mpr hn)

namespace RunFleet

variable (env : FleetEnv)

/-- Jobs in some states, state by state. -/
def jobsIn (w : RunFleet) (states : List JobState) : List (Job String JobData) :=
  states.flatMap w.queue.ofState

/-- An undisturbed call's reads of the rows and of the queue. -/
def trialCall (w : RunFleet) (puzzleId : ℕ) (date model : String) (budgetTier : Option String) :
    TrialCall where
  model := model
  date := date
  budgetTier := budgetTier
  existingRuns := some (w.trialWorld puzzleId).rows
  pending := ⟨TrialWorld.trialsOf puzzleId env.strategyName (w.jobsIn pendingStates), 0, true⟩
  active := ⟨TrialWorld.trialsOf puzzleId env.strategyName (w.jobsIn [.active]), 0, true⟩

/-- Queue a single new trial of a model. -/
def triggerNextLlmTrial (w : RunFleet) (puzzleId : ℕ) (date model : String)
    (budgetTier : Option String) : Except String RunFleet :=
  let call := w.trialCall env puzzleId date model budgetTier
  (call.decision env.strategyName env.limit).map fun
    | none => w
    | some trialNumber =>
      let id := runStrategyJobId puzzleId env.strategyName (some model) trialNumber
      let data := call.jobData puzzleId env.strategyName trialNumber
      { w with queue := w.queue.add id (.runStrategy data) .waiting }

/-- The trial numbers of a puzzle's rows and live jobs. -/
def trialNumbers (w : RunFleet) (puzzleId : ℕ) : List ℕ :=
  ((w.trialWorld puzzleId).trials puzzleId env.strategyName).map (·.trialNumber)

/-- The highest trial number of a puzzle, 0 when there is none. -/
def highestTrialNumber (w : RunFleet) (puzzleId : ℕ) : ℕ :=
  (w.trialNumbers env puzzleId).foldl max 0

/-- A trial of a model waits in the queue, not started. -/
def hasPendingTrial (w : RunFleet) (puzzleId : ℕ) (model : String) : Bool :=
  w.queue.jobs.any fun j => j.state.notStarted &&
    (trialOf puzzleId env.strategyName j.data).any (·.model = some model)

variable {env}

theorem mem_jobsIn {w : RunFleet} {states : List JobState} {j : Job String JobData} :
    j ∈ w.jobsIn states ↔ j ∈ w.queue.jobs ∧ j.state ∈ states := by
  simp [jobsIn, Queue.ofState, and_comm]

/-- Going through the queue finds a pending trial of the model if there is one. -/
theorem hasPendingTrial_iff {w : RunFleet} {puzzleId : ℕ} {model : String} :
    w.hasPendingTrial env puzzleId model ↔ ∃ j ∈ w.queue.jobs, j.state.notStarted ∧
      ∃ t, trialOf puzzleId env.strategyName j.data = some t ∧ t.model = some model := by
  simp [hasPendingTrial, Option.any_eq_true]

/-- An undisturbed call's pending trials are the jobs that no worker has taken. -/
theorem mem_trialCall_pending {w : RunFleet} {puzzleId : ℕ} {date model : String}
    {budgetTier : Option String} {t : QueuedTrial} :
    t ∈ (w.trialCall env puzzleId date model budgetTier).pending.trials ↔
      ∃ j ∈ w.queue.jobs, j.state.notStarted ∧
        trialOf puzzleId env.strategyName j.data = some t := by
  simp only [trialCall, TrialWorld.mem_trialsOf, mem_jobsIn]
  refine exists_congr fun j => ?_
  cases hstate : j.state <;> simp [pendingStates, JobState.notStarted]

/-- An undisturbed call counts the numbers of the rows and the live jobs. -/
theorem nextTrialNumber_trialCall (w : RunFleet) (puzzleId : ℕ) (date model : String)
    (budgetTier : Option String) :
    (w.trialCall env puzzleId date model budgetTier).nextTrialNumber =
      w.highestTrialNumber env puzzleId + 1 := by
  refine congrArg (· + 1) (foldl_max_congr (fun n => ?_) 0)
  have hlive : ∀ j : Job String JobData,
      j.state ∈ pendingStates ∨ j.state ∈ [JobState.active] ↔ j.state.live := by
    intro j
    cases j.state <;> simp [pendingStates, JobState.live]
  rw [TrialCall.trialModels, mem_numbers_foldl_setTrial]
  simp only [List.map_nil, List.not_mem_nil, false_or, TrialCall.recorded, trialCall,
    Option.getD_some, List.map_append, List.mem_append, trialNumbers, TrialWorld.trials]
  refine or_congr_right ?_
  simp only [List.mem_map, TrialWorld.mem_trialsOf, mem_jobsIn, List.mem_filter, trialWorld]
  constructor
  · rintro (⟨t, ⟨j, ⟨hj, hst⟩, ht⟩, rfl⟩ | ⟨t, ⟨j, ⟨hj, hst⟩, ht⟩, rfl⟩)
    · exact ⟨t, ⟨j, ⟨hj, (hlive j).mp (.inl hst)⟩, ht⟩, rfl⟩
    · exact ⟨t, ⟨j, ⟨hj, (hlive j).mp (.inr hst)⟩, ht⟩, rfl⟩
  · rintro ⟨t, ⟨j, ⟨hj, hst⟩, ht⟩, rfl⟩
    rcases (hlive j).mpr hst with hst | hst
    · exact .inl ⟨t, ⟨j, ⟨hj, hst⟩, ht⟩, rfl⟩
    · exact .inr ⟨t, ⟨j, ⟨hj, hst⟩, ht⟩, rfl⟩

/-- A dispatch that returns normally leaves a trial of its model queued exactly when one was
pending, or the queue knows no job under the id of the next number. -/
theorem triggerNextLlmTrial_queues_iff {w w' : RunFleet} {puzzleId : ℕ} {date model : String}
    {budgetTier : Option String}
    (h : w.triggerNextLlmTrial env puzzleId date model budgetTier = .ok w') :
    w'.hasPendingTrial env puzzleId model ↔
      w.hasPendingTrial env puzzleId model ∨
        ∀ j ∈ w.queue.jobs, j.id ≠ runStrategyJobId puzzleId env.strategyName (some model)
          (w.highestTrialNumber env puzzleId + 1) := by
  simp only [triggerNextLlmTrial] at h
  cases hdecision : (w.trialCall env puzzleId date model budgetTier).decision env.strategyName
      env.limit with
  | error message =>
    rw [hdecision] at h
    cases h
  | ok decided =>
    rw [hdecision] at h
    cases decided with
    | none =>
      cases h
      have hpending : w.hasPendingTrial env puzzleId model := by
        unfold TrialCall.decision at hdecision
        split at hdecision
        · rename_i hany
          obtain ⟨t, ht, hmodel⟩ := List.any_eq_true.mp hany
          obtain ⟨j, hj, hst, hjt⟩ := mem_trialCall_pending.mp ht
          exact hasPendingTrial_iff.mpr ⟨j, hj, hst, t, hjt, of_decide_eq_true hmodel⟩
        · split at hdecision <;> cases hdecision
      exact ⟨fun _ => .inl hpending, fun _ => hpending⟩
    | some n =>
      cases h
      obtain ⟨⟨hnone, -⟩, rfl⟩ := TrialCall.decision_eq_some.mp hdecision
      rw [nextTrialNumber_trialCall]
      have hnot : ¬ w.hasPendingTrial env puzzleId model := by
        rw [hasPendingTrial_iff]
        rintro ⟨j, hj, hst, t, hjt, hmodel⟩
        exact hnone t (mem_trialCall_pending.mpr ⟨j, hj, hst, hjt⟩) hmodel
      rw [hasPendingTrial_iff]
      simp only [hnot, Bool.false_eq_true, false_or]
      simp only [Queue.mem_add, Queue.lookup_eq_none]
      constructor
      · rintro ⟨j, hj | ⟨-, hfresh⟩, hst, t, hjt, hmodel⟩
        · exact absurd (hasPendingTrial_iff.mpr ⟨j, hj, hst, t, hjt, hmodel⟩) hnot
        · exact hfresh
      · intro hfresh
        exact ⟨_, .inr ⟨rfl, hfresh⟩, rfl, ⟨w.highestTrialNumber env puzzleId + 1, some model⟩,
          by simp [trialOf, TrialCall.jobData, trialCall], rfl⟩

/-- No rows, no jobs, nothing in progress. -/
def fresh : RunFleet := ⟨0, 1, [], .empty, [], [], [], []⟩

/-- A strategy with three trials a model. -/
def openaiEnv : FleetEnv := ⟨"llm-openai", 3, fun _ _ => "2023-06-12", fun _ => "2023-06-12"⟩

/-- A call on a puzzle from its lock to its decision. -/
def wholeCall (puzzleId : ℕ) (model : String) : List FleetEvent :=
  [.acquire model "2023-06-12" none, .readRows, .readPending, .readActive, .conclude].map
    (.call puzzleId)

/-- The first dispatch of a model finds its id free. -/
theorem triggerNextLlmTrial_queues_iff_fresh :
    ∃ w', fresh.triggerNextLlmTrial openaiEnv 1 "2023-06-12" "a" none = .ok w' ∧
      w'.hasPendingTrial openaiEnv 1 "a" := by
  obtain ⟨w', hok⟩ : ∃ w', fresh.triggerNextLlmTrial openaiEnv 1 "2023-06-12" "a" none = .ok w' :=
    ⟨_, rfl⟩
  refine ⟨w', hok, (triggerNextLlmTrial_queues_iff hok).mpr (.inr ?_)⟩
  intro j hj
  cases hj

/-- Three failed attempts before the row is written, or the deletion of the finished run, free
the number of a trial but not its job id: the next dispatch returns with nothing queued. -/
theorem retained_id_swallows_dispatch :
    (∃ w w', Run.Reaches (step openaiEnv) Run.always fresh w ∧
      w.triggerNextLlmTrial openaiEnv 1 "2023-06-12" "a" none = .ok w' ∧
      w'.hasPendingTrial openaiEnv 1 "a" = false) ∧
    ∃ w w', Run.Reaches (step openaiEnv) Run.always fresh w ∧ w.runs = [] ∧
      (∃ j ∈ w.queue.jobs, j.state = .completed) ∧
      w.triggerNextLlmTrial openaiEnv 1 "2023-06-12" "a" none = .ok w' ∧
      w'.hasPendingTrial openaiEnv 1 "a" = false := by
  let id := "run-1-llm-openai-a-1"
  let swallowed (w : RunFleet) : Bool :=
    (w.triggerNextLlmTrial openaiEnv 1 "2023-06-12" "a" none).toOption.any fun w' =>
      w'.hasPendingTrial openaiEnv 1 "a" = false
  have unpack (w : RunFleet) (h : swallowed w) : ∃ w',
      w.triggerNextLlmTrial openaiEnv 1 "2023-06-12" "a" none = .ok w' ∧
        w'.hasPendingTrial openaiEnv 1 "a" = false := by
    simp only [swallowed] at h
    cases hdispatch : w.triggerNextLlmTrial openaiEnv 1 "2023-06-12" "a" none with
    | error message =>
      rw [hdispatch] at h
      cases h
    | ok w' =>
      rw [hdispatch] at h
      exact ⟨w', rfl, by simpa [Except.toOption] using h⟩
  constructor
  · obtain ⟨w, hrun, hswallowed⟩ := Run.exists_reaches (step openaiEnv) Run.always fresh
      (wholeCall 1 "a" ++ [.pick id, .throws id, .promote id, .pick id, .throws id, .promote id,
        .pick id, .throws id]) swallowed (by decide)
    obtain ⟨w', hok, hnone⟩ := unpack w hswallowed
    exact ⟨w, w', hrun, hok, hnone⟩
  · obtain ⟨w, hrun, hswallowed⟩ := Run.exists_reaches (step openaiEnv) Run.always fresh
      (wholeCall 1 "a" ++ [.pick id, .load id ["ANT", "BEE", "FLY", "GNAT"] none,
        .finish id .completed [], .complete id, .deleteRun 1])
      (fun w => swallowed w && (w.runs = [] && w.queue.jobs.any (·.state = .completed)))
      (by decide)
    simp only [Bool.and_eq_true, decide_eq_true_eq, List.any_eq_true] at hswallowed
    obtain ⟨w', hok, hnone⟩ := unpack w hswallowed.1
    exact ⟨w, w', hrun, hswallowed.2.1, hswallowed.2.2, hok, hnone⟩

end RunFleet

end Connections

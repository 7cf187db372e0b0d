import Connections.Library.Loop
import Connections.Ticks.Allocation
import Connections.Ticks.TickChain

/-!
# A tick of a free-tier program

`runTick` of the free-tier dispatch: the room under the threshold, the paused runs that it resumes
first, and the loop that queues new trials on the least allocated model whose next call still fits,
against any order of failures.
-/

namespace Connections

open LeastServed

/-- What a tick of a free-tier program reads once it has found its cycle active. -/
structure TierReads where
  models : List String
  usedTokens : ℕ
  committedTokens : ℕ
  maxBatch : ℕ
  maxInFlight : ℕ
  /-- The output caps, of the models that have one. -/
  caps : List (String × ℕ)
  inFlight : Allocation models
  /-- The models of the program's budget-paused runs, oldest first. -/
  parked : List String
  allocation : Allocation models

/-- What becomes of one paused run that a tick takes up. -/
inductive ResumeAttempt
  | addFailed (message : String)
  /-- The job is queued and the save of the row fails. -/
  | saveFailed (message : String)
  | resumed
  deriving DecidableEq, Repr

/-- Queue paused runs again, one after the other: those queued, and what is thrown. -/
def resumeAll (attempt : ℕ → ResumeAttempt) : ℕ → List String → List String × Option String
  | _, [] => ([], none)
  | i, model :: rest => match attempt i with
    | .addFailed message => ([], some message)
    | .saveFailed message => ([model], some message)
    | .resumed => (model :: (resumeAll attempt (i + 1) rest).1, (resumeAll attempt (i + 1) rest).2)

/-- Resume up to `limit` of the paused runs on the given models. -/
def resumeBudgetParkedRuns (attempt : ℕ → ResumeAttempt) (parked models : List String)
    (limit : ℕ) : List String × Option String :=
  if limit = 0 ∨ models = [] then ([], none)
  else resumeAll attempt 0 ((parked.filter (· ∈ models)).take limit)

theorem length_resumeAll_le (attempt : ℕ → ResumeAttempt) (i : ℕ) (runs : List String) :
    (resumeAll attempt i runs).1.length ≤ runs.length := by
  induction runs generalizing i with
  | nil => simp [resumeAll]
  | cons model rest ih =>
    have hrest := ih (i + 1)
    cases hattempt : attempt i <;>
      simp only [resumeAll, hattempt, List.length_cons, List.length_nil]
    · omega
    · omega
    · omega

/-- Never more than the limit. -/
theorem length_resumeBudgetParkedRuns_le (attempt : ℕ → ResumeAttempt)
    (parked models : List String) (limit : ℕ) :
    (resumeBudgetParkedRuns attempt parked models limit).1.length ≤ limit := by
  unfold resumeBudgetParkedRuns
  split
  · exact Nat.zero_le _
  · exact (length_resumeAll_le _ _ _).trans (List.length_take_le _ _)

/-- A model's soft worst case for one call; without a cap only its input counts. -/
def worstCase (caps : List (String × ℕ)) (model : String) : ℕ :=
  (caps.lookup model).getD 0 + softInputAllowanceTokens

/-- The soft worst cases of some trials, by their models. -/
def worstCases (caps : List (String × ℕ)) (trials : List String) : ℕ :=
  (trials.map (worstCase caps)).sum

/-- The soft worst cases of the trials that a map counts. -/
def worstCasesOf (caps counts : List (String × ℕ)) : ℕ :=
  (counts.map fun entry => entry.2 * worstCase caps entry.1).sum

/-- A model fits when it has a cap and its soft worst case is within the budget. -/
theorem fits_iff {caps : List (String × ℕ)} {budget : ℤ} {model : String} :
    fits caps budget model ↔
      (caps.lookup model).isSome ∧ (worstCase caps model : ℤ) ≤ budget := by
  unfold fits worstCase
  cases caps.lookup model <;> simp

/-- The loop over new trials between two passes. -/
structure NewTrials where
  allocation : List (String × ℕ)
  exhausted : Finset String
  skipped : Finset String
  budgetForNew : ℤ
  dispatched : ℕ
  /-- The models of the trials dispatched, newest first. -/
  trials : List String
  /-- The models tried so far. -/
  attempts : ℕ

/-- What the least allocated model throws when there is none. -/
def everyModelExcluded : String := "leastAllocatedModel called with every model excluded"

namespace NewTrials

/-- Before the first pass. -/
def start (allocation : List (String × ℕ)) (budgetForNew : ℤ) : NewTrials :=
  ⟨allocation, ∅, ∅, budgetForNew, 0, [], 0⟩

/-- Skip the models that do not fit. -/
def skip (models : List String) (caps : List (String × ℕ)) (s : NewTrials) : NewTrials :=
  { s with
    skipped := s.skipped ∪ (models.filter fun model => !fits caps s.budgetForNew model).toFinset }

/-- A trial of a model goes through. -/
def dispatch (caps : List (String × ℕ)) (s : NewTrials) (model : String) : NewTrials :=
  { s with
    allocation := add model 1 s.allocation
    budgetForNew := s.budgetForNew - worstCase caps model
    dispatched := s.dispatched + 1
    trials := model :: s.trials
    attempts := s.attempts + 1 }

/-- A model is done for this tick. -/
def exhaust (s : NewTrials) (model : String) : NewTrials :=
  { s with exhausted := insert model s.exhausted, attempts := s.attempts + 1 }

/-- The models that a pass does not choose from. -/
def excluded (s : NewTrials) : Finset String := s.exhausted ∪ s.skipped

/-- Choose a model and try to queue a trial of it. -/
def choose (models : List String) (caps : List (String × ℕ))
    (attempt : ℕ → String → DispatchAttempt) (s : NewTrials) :
    Loop.Pass NewTrials (NewTrials × Option String) :=
  if models.length ≤ s.excluded.card then .leave (s, none)
  else match leastAllocatedModel everyModelExcluded s.allocation s.excluded with
    | .error message => .leave (s, some message)
    | .ok model => match attempt s.attempts model with
      | .lookupFailed | .noUnrunPuzzle | .enqueueFailed => .next (s.exhaust model)
      | .queued => .next (s.dispatch caps model)

/-- One pass; the loop leaves with its state and with what it throws. -/
def pass (models : List String) (caps : List (String × ℕ)) (limit : ℕ)
    (attempt : ℕ → String → DispatchAttempt) (s : NewTrials) :
    Loop.Pass NewTrials (NewTrials × Option String) :=
  if s.dispatched < limit then (s.skip models caps).choose models caps attempt
  else .leave (s, none)

/-- Every model ran out of unrun puzzles or failed. -/
def allExhausted (models : List String) (s : NewTrials) : Bool :=
  s.exhausted.card = models.length

variable {models : List String} {caps : List (String × ℕ)} {limit : ℕ}
  {attempt : ℕ → String → DispatchAttempt} {s s' : NewTrials} {r : NewTrials × Option String}

/-- A pass that goes on dispatches or exhausts a model that is not excluded. -/
theorem pass_next (h : pass models caps limit attempt s = .next s') :
    s.dispatched < limit ∧ ∃ model ∈ keys s.allocation, model ∉ (s.skip models caps).excluded ∧
      (s' = (s.skip models caps).dispatch caps model ∨
        s' = (s.skip models caps).exhaust model) := by
  unfold pass at h
  split at h
  · rename_i hlt
    refine ⟨hlt, ?_⟩
    unfold choose at h
    split at h
    · cases h
    · cases hmodel : leastAllocatedModel everyModelExcluded (s.skip models caps).allocation
          (s.skip models caps).excluded with
      | error message => simp [hmodel] at h
      | ok model =>
        obtain ⟨n, -, hmem, hnot⟩ := leastAllocatedModel_ok hmodel
        refine ⟨model, List.mem_map_of_mem (f := Prod.fst) hmem, hnot, ?_⟩
        simp only [hmodel] at h
        cases hattempt : attempt (s.skip models caps).attempts model with
        | queued =>
          simp only [hattempt, Loop.Pass.next.injEq] at h
          exact .inl h.symm
        | lookupFailed | noUnrunPuzzle | enqueueFailed =>
          simp only [hattempt, Loop.Pass.next.injEq] at h
          exact .inr h.symm
  · cases h

/-- A pass that leaves keeps the trials, the dispatched and the exhausted; it throws only where
fewer names are excluded than models are listed and no model is left. -/
theorem pass_leave (h : pass models caps limit attempt s = .leave r) :
    (r.1 = s ∨ r.1 = s.skip models caps) ∧
      (r.2 = none ∨ r.2 = some everyModelExcluded ∧
        (s.skip models caps).excluded.card < models.length ∧
        ∀ model ∈ keys s.allocation, model ∈ (s.skip models caps).excluded) := by
  unfold pass at h
  split at h
  · unfold choose at h
    split at h
    · simp only [Loop.Pass.leave.injEq] at h
      subst h
      exact ⟨.inr rfl, .inl rfl⟩
    · rename_i hcard
      cases hmodel : leastAllocatedModel everyModelExcluded (s.skip models caps).allocation
          (s.skip models caps).excluded with
      | error message =>
        obtain ⟨rfl, hall⟩ := leastAllocatedModel_error.mp hmodel
        simp only [hmodel, Loop.Pass.leave.injEq] at h
        subst h
        exact ⟨.inr rfl, .inr ⟨rfl, Nat.lt_of_not_le hcard, hall⟩⟩
      | ok model =>
        simp only [hmodel] at h
        split at h <;> cases h
  · simp only [Loop.Pass.leave.injEq] at h
    subst h
    exact ⟨.inl rfl, .inl rfl⟩

/-- What holds between two passes that began with a budget: the allocation is that of the models,
the trials are counted, within the limit and of models with a cap, and each of them was within the
budget when it was dispatched. -/
structure Within (models : List String) (caps : List (String × ℕ)) (limit : ℕ) (budget : ℤ)
    (s : NewTrials) : Prop where
  mem_keys : ∀ model, model ∈ keys s.allocation ↔ model ∈ models
  budgetForNew : s.budgetForNew = budget - worstCases caps s.trials
  counted : s.dispatched = s.trials.length
  le : s.dispatched ≤ limit
  capped : ∀ model ∈ s.trials, (caps.lookup model).isSome
  fitted : ∀ trials, trials <:+ s.trials → trials ≠ [] → (worstCases caps trials : ℤ) ≤ budget

theorem Within.start (allocation : Allocation models) (caps : List (String × ℕ)) (limit : ℕ)
    (budget : ℤ) : Within models caps limit budget (start allocation.counts budget) where
  mem_keys := allocation.mem_keys
  budgetForNew := by simp [NewTrials.start, worstCases]
  counted := rfl
  le := Nat.zero_le _
  capped := by simp [NewTrials.start]
  fitted := by
    intro trials hsuffix hne
    exact absurd (List.suffix_nil.mp hsuffix) hne

theorem Within.skip {budget : ℤ} (hs : Within models caps limit budget s) :
    Within models caps limit budget (s.skip models caps) :=
  ⟨hs.mem_keys, hs.budgetForNew, hs.counted, hs.le, hs.capped, hs.fitted⟩

/-- A model that a pass has not skipped fits. -/
theorem fits_of_not_mem_excluded {model : String} (hmem : model ∈ models)
    (hnot : model ∉ (s.skip models caps).excluded) : fits caps s.budgetForNew model := by
  by_contra hfits
  apply hnot
  refine Finset.mem_union_right _ (Finset.mem_union_right _ (List.mem_toFinset.mpr ?_))
  exact List.mem_filter.mpr ⟨hmem, by simpa using hfits⟩

/-- Every pass keeps the bounds. -/
theorem Within.pass {budget : ℤ} (hs : Within models caps limit budget s)
    (h : pass models caps limit attempt s = .next s') : Within models caps limit budget s' := by
  obtain ⟨hlt, model, hkey, hnot, rfl | rfl⟩ := pass_next h
  · obtain ⟨hcap, hworst⟩ := fits_iff.mp
      (fits_of_not_mem_excluded ((hs.mem_keys model).mp hkey) hnot)
    have hsum : worstCases caps (model :: s.trials) =
        worstCase caps model + worstCases caps s.trials := by simp [worstCases]
    have hbudget := hs.budgetForNew
    refine ⟨?_, ?_, congrArg (· + 1) hs.counted, hlt, ?_, ?_⟩
    · intro other
      have hkeys : keys (add model 1 s.allocation) = keys s.allocation := keys_add_of_mem hkey
      rw [← hs.mem_keys, ← hkeys]
      rfl
    · change s.budgetForNew - worstCase caps model = budget - worstCases caps (model :: s.trials)
      rw [hsum]
      push_cast
      omega
    · intro other hother
      rcases List.mem_cons.mp hother with rfl | hother
      · exact hcap
      · exact hs.capped other hother
    · intro trials hsuffix hne
      rcases List.suffix_cons_iff.mp hsuffix with rfl | hsuffix
      · change ((worstCases caps (model :: s.trials) : ℕ) : ℤ) ≤ budget
        rw [hsum]
        push_cast
        omega
      · exact hs.fitted trials hsuffix hne
  · exact ⟨hs.mem_keys, hs.budgetForNew, hs.counted, hs.le, hs.capped, hs.fitted⟩

/-- The trials to go and the models in the running: less with every pass. -/
def remaining (models : List String) (limit : ℕ) (s : NewTrials) : ℕ :=
  (limit - s.dispatched) + (models.toFinset \ s.exhausted).card

theorem remaining_lt {budget : ℤ} (hs : Within models caps limit budget s)
    (h : NewTrials.pass models caps limit attempt s = .next s') :
    remaining models limit s' < remaining models limit s := by
  obtain ⟨hlt, model, hkey, hnot, rfl | rfl⟩ := pass_next h
  · simp only [remaining, dispatch, NewTrials.skip]
    omega
  · have hmodel : model ∈ models.toFinset := List.mem_toFinset.mpr ((hs.mem_keys model).mp hkey)
    have hfresh : model ∉ s.exhausted := fun hmem => hnot (Finset.mem_union_left _ hmem)
    have hless : (models.toFinset \ insert model s.exhausted).card <
        (models.toFinset \ s.exhausted).card := by
      rw [Finset.sdiff_insert]
      apply Finset.card_erase_lt_of_mem
      exact Finset.mem_sdiff.mpr ⟨hmodel, hfresh⟩
    simp only [remaining, exhaust, NewTrials.skip]
    omega

/-- The loop ends, over any models and under any budget. -/
theorem ends (allocation : Allocation models) (caps : List (String × ℕ)) (limit : ℕ) (budget : ℤ)
    (attempt : ℕ → String → DispatchAttempt) :
    Loop.Ends (NewTrials.pass models caps limit attempt)
      (NewTrials.start allocation.counts budget) := by
  apply Loop.ends_of_measure (Within models caps limit budget) (remaining models limit)
  · intro s s' hs h
    exact ⟨hs.pass h, remaining_lt hs h⟩
  · exact .start allocation caps limit budget

/-- What the loop leaves with keeps the bounds, and over distinct models it throws nothing. -/
theorem within_of_endsWith {allocation : Allocation models} {budget : ℤ}
    (h : Loop.EndsWith (NewTrials.pass models caps limit attempt)
      (NewTrials.start allocation.counts budget) r) :
    Within models caps limit budget r.1 ∧ (models.Nodup → r.2 = none) := by
  refine h.invariant (Within models caps limit budget)
    (fun r => Within models caps limit budget r.1 ∧ (models.Nodup → r.2 = none)) ?_ ?_
    (.start allocation caps limit budget)
  · intro s s' hs hpass
    exact hs.pass hpass
  · intro s r hs hpass
    obtain ⟨hstate, hthrown⟩ := pass_leave hpass
    constructor
    · rcases hstate with heq | heq
      · rw [heq]
        exact hs
      · rw [heq]
        exact hs.skip
    · intro hnodup
      rcases hthrown with hnone | ⟨-, hcard, hall⟩
      · exact hnone
      · obtain ⟨model, hok⟩ :=
          exists_leastAllocatedModel hnodup hs.mem_keys hcard everyModelExcluded
        rw [leastAllocatedModel_error.mpr ⟨rfl, hall⟩] at hok
        cases hok

end NewTrials

namespace TierReads

/-- The trials in flight at the start of the tick. -/
def inFlightTotal (reads : TierReads) : ℕ := total reads.inFlight.counts

/-- The tokens left under the threshold. -/
def room (reads : TierReads) (thresholdTokens : ℕ) : ℤ := thresholdTokens - reads.committedTokens

/-- The room that the trials in flight leave. -/
def budgetForResumes (reads : TierReads) (thresholdTokens : ℕ) : ℤ :=
  reads.room thresholdTokens - worstCasesOf reads.caps reads.inFlight.counts

/-- The trials that the tick may resume or queue. -/
def slots (reads : TierReads) : ℕ := min reads.maxBatch (reads.maxInFlight - reads.inFlightTotal)

/-- The runs that the tick resumes, and what is thrown there. -/
def resumed (reads : TierReads) (thresholdTokens : ℕ) (resume : ℕ → ResumeAttempt) :
    List String × Option String :=
  resumeBudgetParkedRuns resume reads.parked
    (reads.models.filter (fits reads.caps (reads.budgetForResumes thresholdTokens))) reads.slots

/-- What an abstract tick of the chain reads of it. -/
def toTickReads (reads : TierReads) (allExhausted : Bool) : TickReads where
  models := reads.models
  held := []
  heldReason := none
  callsToday := 0
  budget := 0
  callsPerTrial := 0
  maxBatch := reads.maxBatch
  maxInFlight := reads.maxInFlight
  inFlightTotal := reads.inFlightTotal
  usedTokens := reads.usedTokens
  committedTokens := reads.committedTokens
  caps := reads.caps
  allExhausted := allExhausted

end TierReads

/-- Where a tick throws. -/
inductive TierThrow
  | resumeBudgetParkedRuns (message : String)
  | leastAllocatedModel (message : String)
  deriving DecidableEq, Repr

/-- A tick with its dispatch: the models of the runs resumed and of the trials dispatched, newest
first, and how it ended or where it threw. -/
structure TierTick where
  resumed : List String
  trials : List String
  outcome : Except TierThrow TickOutcome

/-- A tick that dispatches nothing. -/
def TierTick.still (outcome : TickOutcome) : TierTick := ⟨[], [], .ok outcome⟩

/-- How a tick goes on from its loop. -/
def TierTick.ofNewTrials (models resumed : List String) (r : NewTrials × Option String) :
    TierTick where
  resumed := resumed
  trials := r.1.trials
  outcome := match r.2 with
    | some message => .error (.leastAllocatedModel message)
    | none => .ok (if r.1.allExhausted models then .deactivate else .schedule)

/-- `runTick` under a threshold in tokens, with the fuel of its loop. -/
def tierTick (thresholdTokens : ℕ) (reads : TierReads) (resume : ℕ → ResumeAttempt)
    (attempt : ℕ → String → DispatchAttempt) (fuel : ℕ) : Option TierTick :=
  if thresholdTokens ≤ reads.usedTokens then some (.still .deactivate)
  else if reads.maxInFlight ≤ reads.inFlightTotal then some (.still .schedule)
  else if reads.inFlightTotal = 0 ∧
      !reads.models.any (fits reads.caps (reads.room thresholdTokens)) then
    some (.still .deactivate)
  else
    let resumed := reads.resumed thresholdTokens resume
    match resumed.2 with
    | some message => some ⟨resumed.1, [], .error (.resumeBudgetParkedRuns message)⟩
    | none =>
      (Loop.run (NewTrials.pass reads.models reads.caps (reads.slots - resumed.1.length) attempt)
        fuel (.start reads.allocation.counts
          (reads.budgetForResumes thresholdTokens - worstCases reads.caps resumed.1))).map
        (TierTick.ofNewTrials reads.models resumed.1)

section Ticks

variable {thresholdTokens : ℕ} {reads : TierReads} {resume : ℕ → ResumeAttempt}
  {attempt : ℕ → String → DispatchAttempt} {fuel : ℕ} {tick : TierTick}

/-- The loop of a tick, from where it begins. -/
def TierReads.LoopEnds (reads : TierReads) (thresholdTokens : ℕ) (resume : ℕ → ResumeAttempt)
    (attempt : ℕ → String → DispatchAttempt) (r : NewTrials × Option String) : Prop :=
  Loop.EndsWith (NewTrials.pass reads.models reads.caps
      (reads.slots - (reads.resumed thresholdTokens resume).1.length) attempt)
    (.start reads.allocation.counts (reads.budgetForResumes thresholdTokens -
      worstCases reads.caps (reads.resumed thresholdTokens resume).1)) r

/-- A tick stays still, throws as it resumes, or ends as its loop does. -/
theorem tierTick_cases (h : tierTick thresholdTokens reads resume attempt fuel = some tick) :
    (∃ outcome, tick = .still outcome) ∨
      (∃ message, tick = ⟨(reads.resumed thresholdTokens resume).1, [],
        .error (.resumeBudgetParkedRuns message)⟩) ∨
      ∃ r, reads.LoopEnds thresholdTokens resume attempt r ∧
        tick = .ofNewTrials reads.models (reads.resumed thresholdTokens resume).1 r := by
  unfold tierTick at h
  split at h
  · exact .inl ⟨_, (Option.some.inj h).symm⟩
  · split at h
    · exact .inl ⟨_, (Option.some.inj h).symm⟩
    · split at h
      · exact .inl ⟨_, (Option.some.inj h).symm⟩
      · dsimp only at h
        split at h
        · exact .inr (.inl ⟨_, (Option.some.inj h).symm⟩)
        · obtain ⟨r, hr, rfl⟩ := Option.map_eq_some_iff.mp h
          exact .inr (.inr ⟨r, ⟨fuel, hr⟩, rfl⟩)

/-- With enough fuel a tick returns, whatever it reads. -/
theorem exists_tierTick (thresholdTokens : ℕ) (reads : TierReads) (resume : ℕ → ResumeAttempt)
    (attempt : ℕ → String → DispatchAttempt) :
    ∃ fuel tick, tierTick thresholdTokens reads resume attempt fuel = some tick := by
  obtain ⟨r, fuel, hfuel⟩ := NewTrials.ends reads.allocation reads.caps
    (reads.slots - (reads.resumed thresholdTokens resume).1.length)
    (reads.budgetForResumes thresholdTokens -
      worstCases reads.caps (reads.resumed thresholdTokens resume).1) attempt
  refine ⟨fuel, ?_⟩
  unfold tierTick
  split
  · exact ⟨_, rfl⟩
  · split
    · exact ⟨_, rfl⟩
    · split
      · exact ⟨_, rfl⟩
      · dsimp only
        split
        · exact ⟨_, rfl⟩
        · rw [hfuel]
          exact ⟨_, rfl⟩

/-- The decision of the tick chain, from what the tick reads. -/
theorem runTierTick_toTickReads (allExhausted : Bool) :
    runTierTick thresholdTokens (reads.toTickReads allExhausted) =
      if thresholdTokens ≤ reads.usedTokens then .deactivate
      else if reads.maxInFlight ≤ reads.inFlightTotal then .schedule
      else if reads.inFlightTotal = 0 ∧
          !reads.models.any (fits reads.caps (reads.room thresholdTokens)) then .deactivate
      else if allExhausted then .deactivate
      else .schedule :=
  rfl

/-- A tick that throws nothing ends as the tick chain decides from the same reads. -/
theorem tierTick_outcome {outcome : TickOutcome}
    (h : tierTick thresholdTokens reads resume attempt fuel = some tick)
    (hok : tick.outcome = .ok outcome) :
    ∃ allExhausted, runTierTick thresholdTokens (reads.toTickReads allExhausted) = outcome := by
  unfold tierTick at h
  split at h
  · rename_i hused
    cases h
    cases hok
    exact ⟨false, by rw [runTierTick_toTickReads, if_pos hused]⟩
  · rename_i hused
    split at h
    · rename_i hflight
      cases h
      cases hok
      exact ⟨false, by rw [runTierTick_toTickReads, if_neg hused, if_pos hflight]⟩
    · rename_i hflight
      split at h
      · rename_i hnone
        cases h
        cases hok
        refine ⟨false, ?_⟩
        rw [runTierTick_toTickReads, if_neg hused, if_neg hflight, if_pos hnone]
      · rename_i hsome
        dsimp only at h
        split at h
        · cases h
          cases hok
        · obtain ⟨⟨s, thrown⟩, -, rfl⟩ := Option.map_eq_some_iff.mp h
          cases thrown with
          | some message => cases hok
          | none =>
            cases hok
            refine ⟨s.allExhausted reads.models, ?_⟩
            rw [runTierTick_toTickReads, if_neg hused, if_neg hflight, if_neg hsome]

end Ticks

/-- A tick returns; its resumed and new trials stay within its slots, new trials go to models with
a cap, and whenever one is queued the room covers the soft worst cases of the trials in flight,
resumed and queued so far, its own included. -/
theorem tierTick_within_limits (thresholdTokens : ℕ) (reads : TierReads)
    (resume : ℕ → ResumeAttempt) (attempt : ℕ → String → DispatchAttempt) :
    (∃ fuel tick, tierTick thresholdTokens reads resume attempt fuel = some tick) ∧
    ∀ fuel tick, tierTick thresholdTokens reads resume attempt fuel = some tick →
      tick.resumed.length + tick.trials.length ≤
        min reads.maxBatch (reads.maxInFlight - reads.inFlightTotal) ∧
      (∀ model ∈ tick.trials, (reads.caps.lookup model).isSome) ∧
      ∀ trials, trials <:+ tick.trials → trials ≠ [] →
        (worstCasesOf reads.caps reads.inFlight.counts + worstCases reads.caps tick.resumed +
          worstCases reads.caps trials : ℤ) ≤ reads.room thresholdTokens := by
  refine ⟨exists_tierTick thresholdTokens reads resume attempt, fun fuel tick h => ?_⟩
  have hresumed : (reads.resumed thresholdTokens resume).1.length ≤ reads.slots :=
    length_resumeBudgetParkedRuns_le _ _ _ _
  rcases tierTick_cases h with ⟨outcome, rfl⟩ | ⟨message, rfl⟩ | ⟨r, hr, rfl⟩
  · refine ⟨Nat.zero_le _, by simp [TierTick.still], fun trials hsuffix hne => ?_⟩
    exact absurd (List.suffix_nil.mp hsuffix) hne
  · refine ⟨hresumed, by simp, fun trials hsuffix hne => ?_⟩
    exact absurd (List.suffix_nil.mp hsuffix) hne
  · have hwithin := (NewTrials.within_of_endsWith hr).1
    refine ⟨?_, hwithin.capped, fun trials hsuffix hne => ?_⟩
    · have hle := hwithin.le
      have hcounted := hwithin.counted
      change (reads.resumed thresholdTokens resume).1.length + r.1.trials.length ≤ reads.slots
      omega
    · have hfitted := hwithin.fitted trials hsuffix hne
      simp only [TierReads.budgetForResumes] at hfitted
      simp only [TierTick.ofNewTrials]
      omega

/-- No two of a program's supported models share a name. -/
def TierNamesDistinct (table : SupportedModelTable) (tier : FreeTierId) : Prop :=
  ∀ row ∈ table.rows, row.value.supported → row.value.freeTier = some tier.column →
    ∀ other ∈ table.rows, other.value.supported → other.value.freeTier = some tier.column →
      row.key.2 = other.key.2 → row = other

/-- A program's names are distinct just when no two of its supported models share one. -/
theorem nodup_findModelNamesByFreeTier {table : SupportedModelTable} {tier : FreeTierId} :
    (table.findModelNamesByFreeTier tier).Nodup ↔ TierNamesDistinct table tier := by
  unfold SupportedModelTable.findModelNamesByFreeTier TierNamesDistinct
  rw [SupportedModelTable.nodup_findModelNames]
  simp only [decide_eq_true_eq]

/-- Whatever a tick over these models reads and whatever fails in it, it returns, and the least
allocated model throws nothing. -/
def NeverThrows (models : List String) : Prop :=
  ∀ (thresholdTokens : ℕ) (reads : TierReads) (resume : ℕ → ResumeAttempt)
    (attempt : ℕ → String → DispatchAttempt), reads.models = models →
    ∃ fuel tick, tierTick thresholdTokens reads resume attempt fuel = some tick ∧
      ∀ message, tick.outcome ≠ .error (.leastAllocatedModel message)

/-- Distinct models never run out before the names excluded do. -/
theorem neverThrows_of_nodup {models : List String} (hnodup : models.Nodup) :
    NeverThrows models := by
  rintro thresholdTokens reads resume attempt rfl
  obtain ⟨fuel, tick, htick⟩ := exists_tierTick thresholdTokens reads resume attempt
  refine ⟨fuel, tick, htick, fun message houtcome => ?_⟩
  rcases tierTick_cases htick with ⟨outcome, rfl⟩ | ⟨other, rfl⟩ | ⟨r, hr, rfl⟩
  · cases houtcome
  · cases houtcome
  · have hnone := (NewTrials.within_of_endsWith hr).2 hnodup
    simp [TierTick.ofNewTrials, hnone] at houtcome

/-- One trial in flight, no cap, and room for nothing. -/
def crowdedReads (models : List String) (first : String) : TierReads where
  models := models
  usedTokens := 0
  committedTokens := 0
  maxBatch := 1
  maxInFlight := 2
  caps := []
  inFlight := .countInFlightByModel models [] [first]
  parked := []
  allocation := .countTodayDispatchByModel models [] [first]

theorem inFlightTotal_crowdedReads {models : List String} {first : String} (h : first ∈ models) :
    (crowdedReads models first).inFlightTotal = 1 := by
  simp only [TierReads.inFlightTotal, crowdedReads, Allocation.countInFlightByModel,
    Allocation.queuedCountsByModel, Allocation.countOn, total_addAll, total_zeros]
  simp [ones, total, h]

/-- With a name listed twice all names are excluded before the loop's bound is reached. -/
theorem pass_crowdedReads {models : List String} (hdup : ¬ models.Nodup)
    (allocation : Allocation models) (attempt : ℕ → String → DispatchAttempt) (budget : ℤ) :
    ∃ s, NewTrials.pass models [] 1 attempt (.start allocation.counts budget) =
      .leave (s, some everyModelExcluded) := by
  have hskip : ((NewTrials.start allocation.counts budget).skip models []).excluded =
      models.toFinset := by
    ext model
    simp [NewTrials.excluded, NewTrials.skip, NewTrials.start, fits]
  have hcard : models.toFinset.card < models.length := by
    refine lt_of_le_of_ne (List.toFinset_card_le models) fun heq => hdup ?_
    exact Multiset.coe_nodup.mp (Multiset.toFinset_card_eq_card_iff_nodup.mp heq)
  have herror : leastAllocatedModel everyModelExcluded
      ((NewTrials.start allocation.counts budget).skip models []).allocation models.toFinset =
      .error everyModelExcluded := by
    refine leastAllocatedModel_error.mpr ⟨rfl, fun model hmem => ?_⟩
    exact List.mem_toFinset.mpr ((allocation.mem_keys model).mp hmem)
  refine ⟨(NewTrials.start allocation.counts budget).skip models [], ?_⟩
  rw [NewTrials.pass, if_pos (by simp [NewTrials.start]), NewTrials.choose, hskip,
    if_neg (Nat.not_le.mpr hcard), herror]

/-- Over a free-tier program's models a tick returns without that throw, whatever it reads and
whatever fails in it, just when no two of the program's supported models share a name. -/
theorem neverThrows_iff (table : SupportedModelTable) (tier : FreeTierId) :
    NeverThrows (table.findModelNamesByFreeTier tier) ↔ TierNamesDistinct table tier := by
  rw [← nodup_findModelNamesByFreeTier]
  refine ⟨fun h => ?_, neverThrows_of_nodup⟩
  by_contra hdup
  set models := table.findModelNamesByFreeTier tier with hmodels
  cases hfirst : models with
  | nil => exact hdup (hfirst ▸ List.nodup_nil)
  | cons first rest =>
    have hmem : first ∈ models := hfirst ▸ List.mem_cons_self
    obtain ⟨fuel, tick, htick, hthrow⟩ := h 1 (crowdedReads models first)
      (fun _ => .resumed) (fun _ _ => .queued) rfl
    have htotal := inFlightTotal_crowdedReads hmem
    have hresumed : (crowdedReads models first).resumed 1 (fun _ => .resumed) = ([], none) := by
      simp [TierReads.resumed, resumeBudgetParkedRuns, crowdedReads, fits]
    have hslots : (crowdedReads models first).slots = 1 := by
      rw [TierReads.slots, htotal]
      rfl
    obtain ⟨s, hpass⟩ := pass_crowdedReads hdup (crowdedReads models first).allocation
      (fun _ _ => .queued) ((crowdedReads models first).budgetForResumes 1 - worstCases [] [])
    unfold tierTick at htick
    rw [if_neg (by simp [crowdedReads]), if_neg (by rw [htotal]; simp [crowdedReads]),
      if_neg (by rw [htotal]; simp)] at htick
    simp only [hresumed, hslots] at htick
    obtain ⟨r, hr, rfl⟩ := Option.map_eq_some_iff.mp htick
    have hends : Loop.EndsWith (NewTrials.pass models [] 1 fun _ _ => .queued) _ r := ⟨fuel, hr⟩
    have heq := hends.unique ⟨1, Loop.run_succ_leave hpass⟩
    exact hthrow everyModelExcluded (by rw [heq]; rfl)

/-- One model name listed under two strategies, both in the same program. -/
def sharedNameTable : SupportedModelTable where
  rows := [⟨1, ("llm-openai", "gpt-4o"), ⟨true, some "flagship"⟩⟩,
    ⟨2, ("llm-openrouter", "gpt-4o"), ⟨true, some "flagship"⟩⟩]
  nextId := 3
  ids_nodup := by decide
  keys_nodup := by decide
  ids_lt := by decide

/-- What a tick reads of that table on a morning without trials. -/
def sharedNameReads : TierReads where
  models := sharedNameTable.findModelNamesByFreeTier .flagship
  usedTokens := 0
  committedTokens := 0
  maxBatch := 3
  maxInFlight := 3
  caps := [("gpt-4o", 4000)]
  inFlight := .countInFlightByModel _ [] []
  parked := []
  allocation := .countTodayDispatchByModel _ [] []

/-- The name's last unrun puzzle gone, the tick throws instead of ending its cycle. -/
theorem sharedName_throws :
    ∃ tick, tierTick 200000 sharedNameReads (fun _ => .resumed) (fun _ _ => .noUnrunPuzzle) 2 =
        some tick ∧
      tick.outcome = .error (.leastAllocatedModel everyModelExcluded) := by
  refine ⟨_, rfl, ?_⟩
  rfl

end Connections

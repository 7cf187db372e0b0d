import Connections.Library.Loop
import Connections.Ticks.Allocation
import Connections.Ticks.TickChain

/-!
# Round-robin dispatch

`dispatchRoundRobin` of the provider pools, pass by pass, against any order of lookups and queue
calls that fail, and the tick of the pool with an account budget, which sizes its batch by the
calls that are left.  The loop is an instance of serving the least served.
-/

namespace Connections

open LeastServed

/-- The dispatch loop between two passes. -/
structure RoundRobin where
  allocation : List (String × ℕ)
  exhausted : Finset String
  dispatched : ℕ
  /-- The models of the trials dispatched, newest first. -/
  trials : List String
  /-- The models tried so far. -/
  attempts : ℕ

/-- What the least allocated model throws when there is none. -/
def everyModelExhausted : String :=
  "leastAllocatedModel called with every model already exhausted"

namespace RoundRobin

/-- Before the first pass. -/
def start (allocation : List (String × ℕ)) : RoundRobin := ⟨allocation, ∅, 0, [], 0⟩

/-- A trial of a model goes through. -/
def dispatch (s : RoundRobin) (model : String) : RoundRobin where
  allocation := add model 1 s.allocation
  exhausted := s.exhausted
  dispatched := s.dispatched + 1
  trials := model :: s.trials
  attempts := s.attempts + 1

/-- A model is done for this tick. -/
def exhaust (s : RoundRobin) (model : String) : RoundRobin :=
  { s with exhausted := insert model s.exhausted, attempts := s.attempts + 1 }

/-- One pass over `candidateModels`; the loop leaves with its state and with what it throws. -/
def pass (candidateModels : List String) (maxNewTrials : ℕ)
    (attempt : ℕ → String → DispatchAttempt) (s : RoundRobin) :
    Loop.Pass RoundRobin (RoundRobin × Option String) :=
  if s.dispatched < maxNewTrials ∧ s.exhausted.card < candidateModels.length then
    match leastAllocatedModel everyModelExhausted s.allocation s.exhausted with
    | .error message => .leave (s, some message)
    | .ok model => match attempt s.attempts model with
      | .lookupFailed | .noUnrunPuzzle | .enqueueFailed => .next (s.exhaust model)
      | .queued => .next (s.dispatch model)
  else .leave (s, none)

/-- Every candidate model is done. -/
def allExhausted (candidateModels : List String) (s : RoundRobin) : Bool :=
  s.exhausted.card = candidateModels.length

/-- The rounds of serving behind the loop. -/
def round (s : RoundRobin) : Round String := ⟨s.allocation, s.exhausted, s.trials⟩

variable {candidateModels : List String} {maxNewTrials : ℕ}
  {attempt : ℕ → String → DispatchAttempt} {s s' : RoundRobin} {r : RoundRobin × Option String}

/-- A pass that goes on serves or exhausts the least allocated model. -/
theorem pass_next (h : pass candidateModels maxNewTrials attempt s = .next s') :
    s.dispatched < maxNewTrials ∧ ∃ entry, least s.exhausted s.allocation = some entry ∧
      (s' = s.dispatch entry.1 ∨ s' = s.exhaust entry.1) := by
  unfold pass at h
  split at h
  · rename_i hgo
    refine ⟨hgo.1, ?_⟩
    cases hmodel : leastAllocatedModel everyModelExhausted s.allocation s.exhausted with
    | error message => simp [hmodel] at h
    | ok model =>
      obtain ⟨n, hleast, -, -⟩ := leastAllocatedModel_ok hmodel
      refine ⟨(model, n), hleast, ?_⟩
      simp only [hmodel] at h
      cases hattempt : attempt s.attempts model with
      | queued =>
        simp only [hattempt, Loop.Pass.next.injEq] at h
        exact .inl h.symm
      | lookupFailed | noUnrunPuzzle | enqueueFailed =>
        simp only [hattempt, Loop.Pass.next.injEq] at h
        exact .inr h.symm
  · cases h

/-- A pass that leaves does so with its own state, and throws only where the bounds of the loop
still hold and no model is left. -/
theorem pass_leave (h : pass candidateModels maxNewTrials attempt s = .leave r) :
    r.1 = s ∧ (r.2 = none ∨ s.exhausted.card < candidateModels.length ∧
      ∀ model ∈ keys s.allocation, model ∈ s.exhausted) := by
  unfold pass at h
  split at h
  · rename_i hgo
    cases hmodel : leastAllocatedModel everyModelExhausted s.allocation s.exhausted with
    | error message =>
      simp only [hmodel, Loop.Pass.leave.injEq] at h
      subst h
      exact ⟨rfl, .inr ⟨hgo.2, (leastAllocatedModel_error.mp hmodel).2⟩⟩
    | ok model => cases hattempt : attempt s.attempts model <;> simp [hmodel, hattempt] at h
  · simp only [Loop.Pass.leave.injEq] at h
    subst h
    exact ⟨rfl, .inl rfl⟩

/-- Each pass is a round of serving. -/
theorem turn_of_pass (h : pass candidateModels maxNewTrials attempt s = .next s') :
    Turn s.round s'.round := by
  obtain ⟨-, entry, hleast, rfl | rfl⟩ := pass_next h
  · exact .serve hleast
  · exact .drop hleast

/-- What holds between two passes: the counts are fair and those of the candidate models, and the
trials are counted and within the batch. -/
structure Bounded (candidateModels : List String) (maxNewTrials : ℕ) (s : RoundRobin) : Prop where
  mem_keys : ∀ model, model ∈ keys s.allocation ↔ model ∈ candidateModels
  fair : Fair s.round
  counted : s.dispatched = s.trials.length
  le : s.dispatched ≤ maxNewTrials

theorem Bounded.start (allocation : Allocation candidateModels) (maxNewTrials : ℕ) :
    Bounded candidateModels maxNewTrials (start allocation.counts) :=
  ⟨allocation.mem_keys, .start allocation.nodup ∅, rfl, Nat.zero_le _⟩

/-- Every pass keeps the bounds. -/
theorem Bounded.pass (hs : Bounded candidateModels maxNewTrials s)
    (h : pass candidateModels maxNewTrials attempt s = .next s') :
    Bounded candidateModels maxNewTrials s' := by
  have hfair := (turn_of_pass h).fair hs.fair
  obtain ⟨hlt, entry, hleast, rfl | rfl⟩ := pass_next h
  · have hmem := (least_eq_some hleast).1
    have hkeys : keys (add entry.1 1 s.allocation) = keys s.allocation :=
      keys_add_of_mem (List.mem_map_of_mem hmem)
    refine ⟨?_, hfair, by simp [dispatch, hs.counted], hlt⟩
    intro model
    rw [← hs.mem_keys, ← hkeys]
    rfl
  · exact ⟨hs.mem_keys, hfair, hs.counted, hs.le⟩

/-- The trials to go and the models still in the running: less with every pass. -/
def remaining (candidateModels : List String) (maxNewTrials : ℕ) (s : RoundRobin) : ℕ :=
  (maxNewTrials - s.dispatched) + (candidateModels.toFinset \ s.exhausted).card

theorem remaining_lt (hs : Bounded candidateModels maxNewTrials s)
    (h : RoundRobin.pass candidateModels maxNewTrials attempt s = .next s') :
    remaining candidateModels maxNewTrials s' < remaining candidateModels maxNewTrials s := by
  obtain ⟨hlt, entry, hleast, rfl | rfl⟩ := pass_next h
  · simp only [remaining, dispatch]
    omega
  · obtain ⟨hmem, hnot, -⟩ := least_eq_some hleast
    have hcandidate : entry.1 ∈ candidateModels.toFinset :=
      List.mem_toFinset.mpr ((hs.mem_keys _).mp (List.mem_map_of_mem hmem))
    have hless : (candidateModels.toFinset \ insert entry.1 s.exhausted).card <
        (candidateModels.toFinset \ s.exhausted).card := by
      rw [Finset.sdiff_insert]
      apply Finset.card_erase_lt_of_mem
      exact Finset.mem_sdiff.mpr ⟨hcandidate, hnot⟩
    simp only [remaining, exhaust]
    omega

/-- The loop ends, over any models. -/
theorem ends (allocation : Allocation candidateModels) (maxNewTrials : ℕ)
    (attempt : ℕ → String → DispatchAttempt) :
    Loop.Ends (RoundRobin.pass candidateModels maxNewTrials attempt)
      (RoundRobin.start allocation.counts) := by
  apply Loop.ends_of_measure (Bounded candidateModels maxNewTrials)
    (remaining candidateModels maxNewTrials)
  · intro s s' hs h
    exact ⟨hs.pass h, remaining_lt hs h⟩
  · exact .start allocation maxNewTrials

/-- What the loop leaves with keeps the bounds. -/
theorem bounded_of_endsWith {allocation : Allocation candidateModels}
    (h : Loop.EndsWith (RoundRobin.pass candidateModels maxNewTrials attempt)
      (RoundRobin.start allocation.counts) r) : Bounded candidateModels maxNewTrials r.1 := by
  refine h.invariant (Bounded candidateModels maxNewTrials)
    (fun r => Bounded candidateModels maxNewTrials r.1) ?_ ?_
    (.start allocation maxNewTrials)
  · intro s s' hs hpass
    exact hs.pass hpass
  · intro s r hs hpass
    rw [(pass_leave hpass).1]
    exact hs

/-- Over distinct models nothing is thrown. -/
theorem not_throws {allocation : Allocation candidateModels} (hnodup : candidateModels.Nodup)
    (h : Loop.EndsWith (RoundRobin.pass candidateModels maxNewTrials attempt)
      (RoundRobin.start allocation.counts) r) : r.2 = none := by
  refine h.invariant (Bounded candidateModels maxNewTrials)
    (fun r => r.2 = none) ?_ ?_ (.start allocation maxNewTrials)
  · intro s s' hs hpass
    exact hs.pass hpass
  · intro s r hs hpass
    rcases (pass_leave hpass).2 with hnone | ⟨hlt, hall⟩
    · exact hnone
    · obtain ⟨model, hok⟩ := exists_leastAllocatedModel hnodup hs.mem_keys hlt everyModelExhausted
      rw [leastAllocatedModel_error.mpr ⟨rfl, hall⟩] at hok
      cases hok

end RoundRobin

/-- `dispatchRoundRobin` under fuel: the state it ends in and what it throws. -/
def dispatchRoundRobin (candidateModels : List String) (maxNewTrials : ℕ)
    (allocation : List (String × ℕ)) (attempt : ℕ → String → DispatchAttempt) (fuel : ℕ) :
    Option (RoundRobin × Option String) :=
  Loop.run (RoundRobin.pass candidateModels maxNewTrials attempt) fuel (.start allocation)

/-- A tick with its dispatch: how many trials it dispatched, and how it ended or what it threw. -/
structure DispatchTick where
  dispatched : ℕ
  outcome : Except String TickOutcome

/-- How a tick goes on from its round robin. -/
def DispatchTick.ofRoundRobin (candidateModels : List String) (r : RoundRobin × Option String) :
    DispatchTick where
  dispatched := r.1.dispatched
  outcome := match r.2 with
    | some message => .error message
    | none => .ok (if r.1.allExhausted candidateModels then .deactivate else .schedule)

/-- The tick of the pool with an account budget, together with the dispatch that it runs. -/
def accountBudgetTick (reads : TickReads) (allocation : List (String × ℕ))
    (attempt : ℕ → String → DispatchAttempt) (fuel : ℕ) : Option DispatchTick :=
  match reads.heldReason with
  | some .daily => some ⟨0, .ok .deactivate⟩
  | some .perMinuteCooldown => some ⟨0, .ok .schedule⟩
  | none =>
    if reads.models = [] then some ⟨0, .ok .deactivate⟩
    else if reads.budget ≤ reads.callsToday + reads.inFlightTotal * reads.callsPerTrial then
      some ⟨0, .ok .deactivate⟩
    else if reads.maxInFlight ≤ reads.inFlightTotal then some ⟨0, .ok .schedule⟩
    else if maxNewTrials reads = 0 then some ⟨0, .ok .schedule⟩
    else (dispatchRoundRobin reads.models (maxNewTrials reads) allocation attempt fuel).map
      (DispatchTick.ofRoundRobin reads.models)

/-- The affordable trials cost no more than the calls that are left. -/
theorem maxNewTrials_mul_le (reads : TickReads) :
    maxNewTrials reads * reads.callsPerTrial ≤
      reads.budget - reads.callsToday - reads.inFlightTotal * reads.callsPerTrial := by
  unfold maxNewTrials
  by_cases hzero : reads.callsPerTrial = 0
  · simp [hzero]
  · simp only [hzero, if_false]
    refine le_trans (Nat.mul_le_mul_right _ (min_le_right _ _)) ?_
    exact Nat.div_mul_le_self _ _

/-- What a tick can do: end before its round robin, or run it behind every gate. -/
inductive AccountBudgetTickCase (reads : TickReads) (allocation : List (String × ℕ))
    (attempt : ℕ → String → DispatchAttempt) (fuel : ℕ) : DispatchTick → Prop
  | still (outcome : TickOutcome) :
      (∀ allExhausted,
        runAccountBudgetTick { reads with allExhausted := allExhausted } = outcome) →
      AccountBudgetTickCase reads allocation attempt fuel ⟨0, .ok outcome⟩
  | dispatched (r : RoundRobin × Option String) :
      reads.callsToday + reads.inFlightTotal * reads.callsPerTrial < reads.budget →
      dispatchRoundRobin reads.models (maxNewTrials reads) allocation attempt fuel = some r →
      (∀ allExhausted, runAccountBudgetTick { reads with allExhausted := allExhausted } =
        if allExhausted then .deactivate else .schedule) →
      AccountBudgetTickCase reads allocation attempt fuel (.ofRoundRobin reads.models r)

/-- Every tick is one of the two. -/
theorem accountBudgetTick_cases {reads : TickReads} {allocation : List (String × ℕ)}
    {attempt : ℕ → String → DispatchAttempt} {fuel : ℕ} {tick : DispatchTick}
    (h : accountBudgetTick reads allocation attempt fuel = some tick) :
    AccountBudgetTickCase reads allocation attempt fuel tick := by
  unfold accountBudgetTick at h
  cases hreason : reads.heldReason with
  | some reason =>
    rw [hreason] at h
    cases reason <;> cases h <;>
      exact .still _ fun _ => by simp [runAccountBudgetTick, hreason]
  | none =>
    rw [hreason] at h
    simp only at h
    by_cases hmodels : reads.models = []
    · rw [if_pos hmodels] at h
      cases h
      exact .still _ fun _ => by simp [runAccountBudgetTick, hreason, hmodels]
    · rw [if_neg hmodels] at h
      by_cases hbudget :
          reads.budget ≤ reads.callsToday + reads.inFlightTotal * reads.callsPerTrial
      · rw [if_pos hbudget] at h
        cases h
        exact .still _ fun _ => by simp [runAccountBudgetTick, hreason, hmodels, hbudget]
      · rw [if_neg hbudget] at h
        by_cases hflight : reads.maxInFlight ≤ reads.inFlightTotal
        · rw [if_pos hflight] at h
          cases h
          exact .still _ fun _ => by
            simp [runAccountBudgetTick, hreason, hmodels, hbudget, hflight]
        · rw [if_neg hflight] at h
          have hsame : ∀ allExhausted, maxNewTrials { reads with allExhausted := allExhausted } =
              maxNewTrials reads := fun _ => rfl
          rw [hreason] at hsame
          by_cases hnew : maxNewTrials reads = 0
          · rw [if_pos hnew] at h
            cases h
            exact .still _ fun _ => by
              simp [runAccountBudgetTick, hreason, hmodels, hbudget, hflight, hsame, hnew]
          · rw [if_neg hnew] at h
            obtain ⟨r, hr, rfl⟩ := Option.map_eq_some_iff.mp h
            refine .dispatched r (Nat.lt_of_not_le hbudget) hr fun _ => ?_
            simp [runAccountBudgetTick, hreason, hmodels, hbudget, hflight, hsame, hnew]

/-- A tick that dispatches has passed every gate before its round robin. -/
theorem accountBudgetTick_dispatches {reads : TickReads} {allocation : List (String × ℕ)}
    {attempt : ℕ → String → DispatchAttempt} {fuel : ℕ} {tick : DispatchTick}
    (h : accountBudgetTick reads allocation attempt fuel = some tick) (hpos : 0 < tick.dispatched) :
    reads.callsToday + reads.inFlightTotal * reads.callsPerTrial < reads.budget ∧
      ∃ r, dispatchRoundRobin reads.models (maxNewTrials reads) allocation attempt fuel = some r ∧
        tick.dispatched = r.1.dispatched := by
  cases accountBudgetTick_cases h with
  | still outcome => cases hpos
  | dispatched r hbudget hr => exact ⟨hbudget, r, hr, rfl⟩

/-- However its dispatch went, a tick that throws nothing ends as the tick chain decides from the
same reads. -/
theorem accountBudgetTick_outcome {reads : TickReads} {allocation : List (String × ℕ)}
    {attempt : ℕ → String → DispatchAttempt} {fuel : ℕ} {tick : DispatchTick}
    {outcome : TickOutcome} (h : accountBudgetTick reads allocation attempt fuel = some tick)
    (hok : tick.outcome = .ok outcome) :
    ∃ allExhausted,
      runAccountBudgetTick { reads with allExhausted := allExhausted } = outcome := by
  cases accountBudgetTick_cases h with
  | still outcome hsame =>
    cases hok
    exact ⟨false, hsame false⟩
  | dispatched r hbudget hr hends =>
    obtain ⟨s, thrown⟩ := r
    cases thrown with
    | some message => cases hok
    | none =>
      cases hok
      exact ⟨s.allExhausted reads.models, hends _⟩

/-- With enough fuel the tick returns, whatever it reads. -/
theorem exists_accountBudgetTick (reads : TickReads) (allocation : Allocation reads.models)
    (attempt : ℕ → String → DispatchAttempt) :
    ∃ fuel tick, accountBudgetTick reads allocation.counts attempt fuel = some tick := by
  obtain ⟨r, fuel, hfuel⟩ := RoundRobin.ends allocation (maxNewTrials reads) attempt
  have hrun : dispatchRoundRobin reads.models (maxNewTrials reads) allocation.counts attempt fuel =
      some r := hfuel
  refine ⟨fuel, ?_⟩
  unfold accountBudgetTick
  rw [hrun]
  cases reads.heldReason with
  | some reason => cases reason <;> exact ⟨_, rfl⟩
  | none =>
    dsimp only
    split
    · exact ⟨_, rfl⟩
    · split
      · exact ⟨_, rfl⟩
      · split
        · exact ⟨_, rfl⟩
        · split
          · exact ⟨_, rfl⟩
          · exact ⟨_, rfl⟩

/-- What an account-budget tick dispatches stays within the budget, in-flight trials included. -/
theorem accountBudgetTick_within {reads : TickReads} {allocation : Allocation reads.models}
    {attempt : ℕ → String → DispatchAttempt} {fuel : ℕ} {tick : DispatchTick}
    (h : accountBudgetTick reads allocation.counts attempt fuel = some tick)
    (hpos : 0 < tick.dispatched) :
    reads.callsToday + (reads.inFlightTotal + tick.dispatched) * reads.callsPerTrial ≤
      reads.budget := by
  obtain ⟨hbudget, r, hr, hdispatched⟩ := accountBudgetTick_dispatches h hpos
  have hle : tick.dispatched ≤ maxNewTrials reads := by
    rw [hdispatched]
    exact (RoundRobin.bounded_of_endsWith ⟨fuel, hr⟩).le
  have hcost := Nat.mul_le_mul_right reads.callsPerTrial hle
  have hafford := maxNewTrials_mul_le reads
  rw [Nat.add_mul]
  omega

/-- The dispatch ends without throwing, within its batch, and with no model that received a trial
ahead of a model not exhausted by more than one; an account-budget tick that dispatches stays
within the calls of its budget. -/
theorem dispatchRoundRobin_bounded_fair (candidateModels : List String)
    (hnodup : candidateModels.Nodup) (allocation : Allocation candidateModels)
    (maxNewTrials : ℕ) (attempt : ℕ → String → DispatchAttempt) :
    (∃ fuel s, dispatchRoundRobin candidateModels maxNewTrials allocation.counts attempt fuel =
        some (s, none) ∧
      s.dispatched ≤ maxNewTrials ∧ s.dispatched = s.trials.length ∧
      ∀ model ∈ s.trials, ∀ other ∈ candidateModels, other ∉ s.exhausted →
        count s.allocation model ≤ count s.allocation other + 1) ∧
    ∀ (reads : TickReads) (today : Allocation reads.models),
      (∃ fuel tick, accountBudgetTick reads today.counts attempt fuel = some tick) ∧
      ∀ fuel tick, accountBudgetTick reads today.counts attempt fuel = some tick →
        0 < tick.dispatched →
        reads.callsToday + (reads.inFlightTotal + tick.dispatched) * reads.callsPerTrial ≤
          reads.budget := by
  refine ⟨?_, fun reads today => ⟨exists_accountBudgetTick reads today attempt, ?_⟩⟩
  · obtain ⟨⟨s, thrown⟩, fuel, hfuel⟩ := RoundRobin.ends allocation maxNewTrials attempt
    have hthrown : thrown = none := RoundRobin.not_throws hnodup ⟨fuel, hfuel⟩
    have hbounded : RoundRobin.Bounded candidateModels maxNewTrials s :=
      RoundRobin.bounded_of_endsWith ⟨fuel, hfuel⟩
    refine ⟨fuel, s, by rw [← hthrown]; exact hfuel, hbounded.le, hbounded.counted, ?_⟩
    intro model hmodel other hother hnot
    exact hbounded.fair.ahead model hmodel other ((hbounded.mem_keys other).mpr hother) hnot
  · intro fuel tick h hpos
    exact accountBudgetTick_within h hpos

/-- Two models, of which the second fails its first lookup. -/
theorem dispatchRoundRobin_two_models :
    ["a", "b"].Nodup ∧ ∃ fuel s,
      dispatchRoundRobin ["a", "b"] 2
        (Allocation.countTodayDispatchByModel ["a", "b"] [some "a"] []).counts
        (fun _ model => if model = "b" then .lookupFailed else .queued) fuel = some (s, none) ∧
      s.dispatched ≤ 2 ∧ s.dispatched = s.trials.length ∧
      ∀ model ∈ s.trials, ∀ other ∈ ["a", "b"], other ∉ s.exhausted →
        count s.allocation model ≤ count s.allocation other + 1 :=
  ⟨by decide, (dispatchRoundRobin_bounded_fair ["a", "b"] (by decide) _ 2 _).1⟩

end Connections

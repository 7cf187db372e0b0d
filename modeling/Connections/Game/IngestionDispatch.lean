import Connections.Game.IngestedPuzzles

/-!
# The runs of an ingested puzzle

An ingestion queues the runs of a puzzle right after it has stored it.  Nothing else does for it: a
crash or a failing queue in between leaves the puzzle without its runs, and later ingestions find
the date stored and pass on.
-/

namespace Connections

open Calendar Clock JobQueue KeyedTable

/-- Whether the runs of a puzzle in hand come into the queue, where the event decides it. -/
def IngestionCallEvent.queued : IngestionCallEvent → Option Bool
  | .dispatch => some true
  | .dispatchFails taken => some taken
  | .crash => some false
  | _ => none

namespace IngestionFleet

variable {env : IngestionEnv}

/-- The puzzles whose runs an ingestion is about to queue. -/
def dispatching (w : IngestionFleet) : List ℕ := w.calls.filterMap (·.state.puzzleId)

/-- A record of each puzzle whose runs were queued, or were not and never will be. -/
def noteDispatch (w : IngestionFleet) (e : IngestionEvent) (_ : IngestionFleet) :
    Option (ℕ × Bool) :=
  match e with
  | .call i event => event.queued.bind fun queued =>
    ((w.calls[i]?).bind (·.state.puzzleId)).map fun puzzleId => (puzzleId, queued)
  | _ => none

/-- What a call's event notes. -/
theorem noteDispatch_call {w w' : IngestionFleet} {i : ℕ} {call : IngestionCall}
    (event : IngestionCallEvent) (hcall : w.calls[i]? = some call) :
    noteDispatch w (.call i event) w' =
      event.queued.bind fun queued =>
        call.state.puzzleId.map fun puzzleId => (puzzleId, queued) := by
  rw [noteDispatch, hcall, Option.bind_some]

/-- The puzzles still to be dispatched and those noted are the stored ones. -/
def Dispatched (v : IngestionFleet × List (ℕ × Bool)) : Prop :=
  (v.1.dispatching ++ v.2.map (·.1)).Perm (v.1.puzzles.rows.map (·.id))

/-- A call that goes on with the same puzzle to dispatch changes nothing. -/
theorem dispatching_setCall {w : IngestionFleet} {i : ℕ} {call next : IngestionCall}
    (hcall : w.calls[i]? = some call) (hsame : next.state.puzzleId = call.state.puzzleId) :
    (w.setCall i next).dispatching.Perm w.dispatching := by
  have hperm :=
    Run.perm_filterMap_set (f := fun call : IngestionCall => call.state.puzzleId) next hcall
  rw [hsame] at hperm
  exact (List.perm_append_left_iff _).mp hperm

/-- A call that leaves its puzzle behind takes it off the list. -/
theorem dispatching_setCall_of_some {w : IngestionFleet} {i puzzleId : ℕ}
    {call next : IngestionCall} (hcall : w.calls[i]? = some call)
    (hstate : call.state.puzzleId = some puzzleId) (hnext : next.state.puzzleId = none) :
    (puzzleId :: (w.setCall i next).dispatching).Perm w.dispatching := by
  have hperm :=
    Run.perm_filterMap_set (f := fun call : IngestionCall => call.state.puzzleId) next hcall
  rw [hstate, hnext] at hperm
  exact hperm

/-- A call that has stored a puzzle puts it on the list. -/
theorem dispatching_setCall_of_none {w : IngestionFleet} {i puzzleId : ℕ}
    {call next : IngestionCall} (hcall : w.calls[i]? = some call)
    (hstate : call.state.puzzleId = none) (hnext : next.state.puzzleId = some puzzleId) :
    (w.setCall i next).dispatching.Perm (puzzleId :: w.dispatching) := by
  have hperm :=
    Run.perm_filterMap_set (f := fun call : IngestionCall => call.state.puzzleId) next hcall
  rw [hstate, hnext] at hperm
  exact hperm

/-- A call without a puzzle to dispatch notes none. -/
theorem noteDispatch_eq_none {w w' : IngestionFleet} {i : ℕ} {call : IngestionCall}
    (event : IngestionCallEvent) (hcall : w.calls[i]? = some call)
    (hidle : call.state.puzzleId = none) : noteDispatch w (.call i event) w' = none := by
  rw [noteDispatch_call event hcall, hidle]
  cases event.queued <;> rfl

/-- A call with a puzzle to dispatch notes it at an event that decides. -/
theorem noteDispatch_eq_some {w w' : IngestionFleet} {i puzzleId : ℕ} {call : IngestionCall}
    {event : IngestionCallEvent} {queued : Bool} (hcall : w.calls[i]? = some call)
    (hbusy : call.state.puzzleId = some puzzleId) (hevent : event.queued = some queued) :
    noteDispatch w (.call i event) w' = some (puzzleId, queued) := by
  rw [noteDispatch_call event hcall, hbusy, hevent]
  rfl

/-- Nothing is stored, and the calls have the same puzzles to dispatch. -/
theorem Dispatched.keep {w w' : IngestionFleet} {log : List (ℕ × Bool)} {e : IngestionEvent}
    (h : Dispatched (w, log)) (hnote : noteDispatch w e w' = none)
    (hcalls : w'.dispatching.Perm w.dispatching) (hrows : w'.puzzles = w.puzzles) :
    Dispatched (w', log ++ (noteDispatch w e w').toList) := by
  unfold Dispatched at *
  rw [hnote, Option.toList_none, List.append_nil]
  dsimp only at *
  rw [hrows]
  exact (hcalls.append_right _).trans h

/-- A call leaves its puzzle behind, and that is noted. -/
theorem Dispatched.leave {w w' : IngestionFleet} {log : List (ℕ × Bool)} {e : IngestionEvent}
    {puzzleId : ℕ} {queued : Bool} (h : Dispatched (w, log))
    (hnote : noteDispatch w e w' = some (puzzleId, queued))
    (hcalls : (puzzleId :: w'.dispatching).Perm w.dispatching) (hrows : w'.puzzles = w.puzzles) :
    Dispatched (w', log ++ (noteDispatch w e w').toList) := by
  unfold Dispatched at *
  rw [hnote, Option.toList_some, List.map_append, ← List.append_assoc]
  dsimp only at *
  rw [hrows]
  refine List.Perm.trans ?_ ((hcalls.append_right _).trans h)
  exact List.perm_append_singleton _ _

/-- Every step keeps the account. -/
theorem Dispatched.step {v v' : IngestionFleet × List (ℕ × Bool)} {e : IngestionEvent}
    (h : Dispatched v) (hstep : Run.logged (step env) noteDispatch v e = some v') :
    Dispatched v' := by
  obtain ⟨w, log⟩ := v
  obtain ⟨w', hw, rfl⟩ := Option.map_eq_some_iff.mp hstep
  have hnext {state : IngestionState} (hstate : state = .reading ∨ state = .returned) :
      state.puzzleId = none := by
    rcases hstate with rfl | rfl <;> rfl
  cases step_cases hw with
  | populate =>
    refine h.keep rfl ?_ rfl
    simp [dispatching, List.filterMap_append, IngestionState.puzzleId]
  | backfill dates =>
    refine h.keep rfl ?_ rfl
    simp [dispatching, List.filterMap_append, hnext (Itinerary.state_dates dates)]
  | loseCache formattedDate => exact h.keep rfl (List.Perm.refl _) rfl
  | trigger row strategyName hrow hautomatic => exact h.keep rfl (List.Perm.refl _) rfl
  | work event queue hqueue => exact h.keep rfl (List.Perm.refl _) rfl
  | read i call data hcall hstate hlookup =>
    have hidle : call.state.puzzleId = none := by rw [hstate]; rfl
    exact h.keep rfl (dispatching_setCall hcall hidle.symm) rfl
  | ask i call event hcall hstate =>
    have hidle : call.state.puzzleId = none := by rw [hstate]; rfl
    exact h.keep (noteDispatch_eq_none event hcall hidle) (dispatching_setCall hcall hidle.symm) rfl
  | fetched i call attempt response data hcall hstate hfetch =>
    have hidle : call.state.puzzleId = none := by rw [hstate]; rfl
    exact h.keep rfl (dispatching_setCall hcall hidle.symm) rfl
  | again i call attempt response hcall hstate hfetch =>
    have hidle : call.state.puzzleId = none := by rw [hstate]; rfl
    exact h.keep rfl (dispatching_setCall hcall hidle.symm) rfl
  | noPuzzle i call attempt response hcall hstate hfetch =>
    have hidle : call.state.puzzleId = none := by rw [hstate]; rfl
    have hdone := hnext (call.noPuzzle_state env.zone)
    exact h.keep rfl (dispatching_setCall hcall (hdone.trans hidle.symm)) rfl
  | cached i call data written hcall hstate =>
    have hidle : call.state.puzzleId = none := by rw [hstate]; rfl
    exact h.keep rfl (dispatching_setCall hcall hidle.symm) rfl
  | inserted i call data day columns puzzles hcall hstate hday hcolumns hrows hfree =>
    have hidle : call.state.puzzleId = none := by rw [hstate]; rfl
    have hlisted :
        (w.setCall i { call with state := .dispatching w.puzzles.nextId }).dispatching.Perm
          (w.puzzles.nextId :: w.dispatching) :=
      dispatching_setCall_of_none hcall hidle rfl
    unfold Dispatched at *
    rw [noteDispatch_eq_none .insert hcall hidle, Option.toList_none, List.append_nil]
    dsimp only at *
    rw [hrows, List.map_cons]
    exact (hlisted.append_right _).trans (h.cons _)
  | existed i call data day hcall hstate hday hrow =>
    have hidle : call.state.puzzleId = none := by rw [hstate]; rfl
    have hdone := hnext (call.existed_state env.zone)
    exact h.keep rfl (dispatching_setCall hcall (hdone.trans hidle.symm)) rfl
  | dispatched i call puzzleId hcall hstate =>
    have hbusy : call.state.puzzleId = some puzzleId := by rw [hstate]; rfl
    have hdone := hnext (call.dispatched_state env.zone)
    exact h.leave (noteDispatch_eq_some hcall hbusy rfl)
      (dispatching_setCall_of_some hcall hbusy hdone) rfl
  | dispatchFailed i call puzzleId taken hcall hstate =>
    have hbusy : call.state.puzzleId = some puzzleId := by rw [hstate]; rfl
    have hdone := hnext (call.dispatched_state env.zone)
    exact h.leave (noteDispatch_eq_some hcall hbusy rfl)
      (dispatching_setCall_of_some hcall hbusy hdone) rfl
  | threw i call event message hcall hstate =>
    have hidle : call.state.puzzleId = none := by
      cases hcase : call.state with
      | dispatching puzzleId => exact absurd hcase (hstate puzzleId)
      | _ => rfl
    exact h.keep (noteDispatch_eq_none event hcall hidle) (dispatching_setCall hcall hidle.symm) rfl
  | crashed i call hcall =>
    cases hbusy : call.state.puzzleId with
    | none =>
      exact h.keep (noteDispatch_eq_none .crash hcall hbusy)
        (dispatching_setCall hcall hbusy.symm) rfl
    | some puzzleId =>
      exact h.leave (noteDispatch_eq_some hcall hbusy rfl)
        (dispatching_setCall_of_some hcall hbusy rfl) rfl

/-- What is noted as queued is in the queue behind the step. -/
theorem queued_of_noteDispatch {w w' : IngestionFleet} {e : IngestionEvent} {puzzleId : ℕ}
    (hstep : step env w e = some w') (hnote : noteDispatch w e w' = some (puzzleId, true))
    {strategyName : String} (hstrategy : strategyName ∈ automaticStrategies) {trialNumber : ℕ}
    (htrial : trialNumber ∈ strategyTrialNumbers env.shuffleTrialCount strategyName) :
    ∃ j ∈ w'.queue.jobs, j.id = runStrategyJobId puzzleId strategyName none trialNumber := by
  have hqueued (queue : Queue String RunStrategyJobData) (date : String) :
      ∃ j ∈ (addBulk queue (automaticJobs env puzzleId date)).jobs,
        j.id = runStrategyJobId puzzleId strategyName none trialNumber := by
    have hjob : strategyJobData puzzleId date strategyName trialNumber ∈
        automaticJobs env puzzleId date :=
      List.mem_flatMap.mpr ⟨strategyName, hstrategy, List.mem_map.mpr ⟨trialNumber, htrial, rfl⟩⟩
    obtain ⟨j, hj, hid⟩ := exists_mem_addBulk queue hjob
    exact ⟨j, hj, hid⟩
  cases step_cases hstep with
  | populate | backfill | loseCache | trigger | work | read | fetched | again | noPuzzle | cached
  | inserted | existed => cases hnote
  | dispatched i call id hcall hstate =>
    rw [noteDispatch_eq_some hcall (by rw [hstate]; rfl) rfl] at hnote
    cases hnote
    exact hqueued w.queue (call.itinerary.formatted env.zone)
  | dispatchFailed i call id taken hcall hstate =>
    rw [noteDispatch_eq_some hcall (by rw [hstate]; rfl) rfl] at hnote
    cases hnote
    exact hqueued w.queue (call.itinerary.formatted env.zone)
  | ask i call event hcall hstate =>
    rw [noteDispatch_eq_none event hcall (by rw [hstate]; rfl)] at hnote
    cases hnote
  | threw i call event message hcall hstate =>
    have hidle : call.state.puzzleId = none := by
      cases hcase : call.state with
      | dispatching id => exact absurd hcase (hstate id)
      | _ => rfl
    rw [noteDispatch_eq_none event hcall hidle] at hnote
    cases hnote
  | crashed i call hcall =>
    cases hbusy : call.state.puzzleId with
    | none =>
      rw [noteDispatch_eq_none .crash hcall hbusy] at hnote
      cases hnote
    | some id =>
      rw [noteDispatch_eq_some hcall hbusy rfl] at hnote
      cases hnote

/-- In every order of steps each stored puzzle is in one of three places: one ingestion is about to
queue its runs, or they were queued once, or a crash or a failing queue lost them and no ingestion
ever queues them.  Where they were queued, all of them were. -/
theorem each_puzzle_is_dispatched_once {w : IngestionFleet} {log : List (ℕ × Bool)}
    (h : Run.Reaches (Run.logged (step env) noteDispatch) (fun _ _ => True) (fresh, []) (w, log)) :
    (w.dispatching ++ log.map (·.1)).Perm (w.puzzles.rows.map (·.id)) ∧
      ∀ e w' puzzleId, step env w e = some w' → noteDispatch w e w' = some (puzzleId, true) →
        ∀ strategyName ∈ automaticStrategies,
          ∀ trialNumber ∈ strategyTrialNumbers env.shuffleTrialCount strategyName,
            ∃ j ∈ w'.queue.jobs,
              j.id = runStrategyJobId puzzleId strategyName none trialNumber := by
  have hfirst : Dispatched (fresh, []) := List.Perm.refl _
  have hall : Dispatched (w, log) := h.invariant hfirst fun _ _ _ hinv _ hstep => hinv.step hstep
  exact ⟨hall, fun e w' puzzleId hstep hnote strategyName hstrategy trialNumber htrial =>
    queued_of_noteDispatch hstep hnote hstrategy htrial⟩

/-- The ingestion that crashed has lost the runs of the first puzzle; those of the second one were
queued. -/
theorem crashed_ingestion_loses_its_runs :
    ∃ w : IngestionFleet,
      Run.Reaches (Run.logged (step cairoEnv) noteDispatch) (fun _ _ => True) (fresh, [])
        (w, [(0, false), (1, true)]) ∧
      (w.dispatching ++ ([0, 1] : List ℕ)).Perm (w.puzzles.rows.map (·.id)) ∧
      w.dispatching = [] := by
  obtain ⟨⟨w, log⟩, hrun, hend⟩ := Run.exists_reaches (Run.logged (step cairoEnv) noteDispatch)
    (fun _ _ => True) (fresh, []) twoIngestions
    (fun v => v.2 = [(0, false), (1, true)] ∧ v.1.dispatching = []) (by decide +kernel)
  obtain ⟨hlog, hidle⟩ := of_decide_eq_true hend
  cases hlog
  exact ⟨w, hrun, (each_puzzle_is_dispatched_once hrun).1, hidle⟩

end IngestionFleet

end Connections

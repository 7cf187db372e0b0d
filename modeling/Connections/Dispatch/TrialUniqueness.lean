import Connections.Dispatch.TrialDispatch

/-!
# Trial numbers and caps

While no step carries a trial past the reads of the call in progress, the call has read every
trial by the time it decides.  The number it takes is then new, and the count it checks is the
real one.
-/

namespace Connections

open JobQueue

/-! ### Binding trials by number -/

/-- A call reads the queue only after the rows. -/
def TrialCall.RowsFirst (c : TrialCall) : Prop :=
  c.existingRuns = none → c.pending = .fresh ∧ c.active = .fresh

/-- In a list of trials a number has one model. -/
def OneModelEach (trials : List QueuedTrial) : Prop :=
  ∀ t ∈ trials, ∀ u ∈ trials, t.trialNumber = u.trialNumber → t = u

theorem setTrial_subset {trials : List QueuedTrial} {trial t : QueuedTrial}
    (h : t ∈ setTrial trials trial) : t ∈ trials ∨ t = trial := by
  rcases List.mem_cons.mp h with rfl | h
  · exact .inr rfl
  · exact .inl (List.mem_filter.mp h).1

/-- Binding trials one after the other keeps all of them when their numbers do not clash. -/
theorem mem_foldl_setTrial {trials bound : List QueuedTrial}
    (hone : OneModelEach (bound ++ trials)) (t : QueuedTrial) :
    t ∈ trials.foldl setTrial bound ↔ t ∈ bound ∨ t ∈ trials := by
  induction trials generalizing bound with
  | nil => simp
  | cons u trials ih =>
    have hset : ∀ v, v ∈ setTrial bound u ↔ v = u ∨ v ∈ bound := by
      intro v
      refine ⟨fun hv => (setTrial_subset hv).symm, ?_⟩
      rintro (rfl | hv)
      · exact List.mem_cons_self
      · by_cases hnumber : v.trialNumber = u.trialNumber
        · rw [hone v (List.mem_append_left _ hv) u (by simp) hnumber]
          exact List.mem_cons_self
        · exact List.mem_cons_of_mem _ (List.mem_filter.mpr ⟨hv, by simpa using hnumber⟩)
    have hone' : OneModelEach (setTrial bound u ++ trials) := by
      intro v hv x hx
      refine hone v ?_ x ?_
      all_goals simp only [List.mem_append, hset, List.mem_cons] at hv hx ⊢
      · tauto
      · tauto
    rw [List.foldl_cons, ih hone', hset, List.mem_cons]
    tauto

theorem le_foldl_max {numbers : List ℕ} {n b : ℕ} (h : n ≤ b ∨ n ∈ numbers) :
    n ≤ numbers.foldl max b := by
  induction numbers generalizing b with
  | nil => simpa using h
  | cons m numbers ih =>
    refine ih ?_
    rcases h with h | h
    · exact .inl (h.trans (Nat.le_max_left _ _))
    · rcases List.mem_cons.mp h with rfl | h
      · exact .inl (Nat.le_max_right _ _)
      · exact .inr h

/-- The next number is new to everything a call has read. -/
theorem TrialCall.lt_nextTrialNumber {c : TrialCall} {t : QueuedTrial} (h : t ∈ c.trialModels) :
    t.trialNumber < c.nextTrialNumber :=
  Nat.lt_succ_of_le (le_foldl_max (.inr (List.mem_map_of_mem h)))

/-- A call takes the next number exactly for a model below its cap with no pending trial. -/
theorem TrialCall.decision_eq_some {c : TrialCall} {strategyName : String} {limit n : ℕ} :
    c.decision strategyName limit = .ok (some n) ↔
      ((∀ t ∈ c.pending.trials, t.model ≠ some c.model) ∧ c.modelRunCount < limit) ∧
        c.nextTrialNumber = n := by
  unfold decision
  split
  · rename_i hpending
    simp only [List.any_eq_true, decide_eq_true_eq] at hpending
    obtain ⟨t, ht, hmodel⟩ := hpending
    simp only [Except.ok.injEq, reduceCtorEq, false_iff, not_and]
    exact fun hnone => absurd hmodel (hnone.1 t ht)
  · rename_i hpending
    simp only [Bool.not_eq_true, List.any_eq_false, decide_eq_true_eq] at hpending
    split
    · rename_i hcap
      simp only [reduceCtorEq, false_iff, not_and]
      exact fun hroom => absurd hroom.2 (Nat.not_lt.mpr hcap)
    · rename_i hcap
      simp only [Except.ok.injEq, Option.some.injEq]
      exact ⟨fun h => ⟨⟨hpending, Nat.lt_of_not_le hcap⟩, h⟩, fun h => h.2⟩

namespace TrialWorld

variable {puzzleId : ℕ} {strategyName : String} {limit : ℕ}

/-! ### The trials of a world -/

theorem mem_trialsOf {jobs : List (Job String JobData)} {t : QueuedTrial} :
    t ∈ trialsOf puzzleId strategyName jobs ↔
      ∃ j ∈ jobs, trialOf puzzleId strategyName j.data = some t := by
  simp [trialsOf, List.mem_filterMap]

theorem mem_trials {w : TrialWorld} {t : QueuedTrial} :
    t ∈ w.trials puzzleId strategyName ↔ t ∈ w.rows ∨
      ∃ j ∈ w.queue.jobs, j.state.live ∧ trialOf puzzleId strategyName j.data = some t := by
  simp only [trials, List.mem_append, mem_trialsOf, List.mem_filter, and_assoc]

/-- Moving a live job to another live state changes no trial. -/
theorem mem_trials_relist {w : TrialWorld} {j : Job String JobData} {st : JobState}
    (hj : j ∈ w.queue.jobs) (hlive : j.state.live) (hst : st.live) (t : QueuedTrial) :
    t ∈ ({ w with queue := w.queue.relist { j with state := st } } : TrialWorld).trials
        puzzleId strategyName ↔ t ∈ w.trials puzzleId strategyName := by
  simp only [mem_trials, Queue.mem_relist]
  refine or_congr_right ⟨?_, ?_⟩
  · rintro ⟨k, rfl | ⟨hk, -⟩, hklive, hkt⟩
    · exact ⟨j, hj, hlive, hkt⟩
    · exact ⟨k, hk, hklive, hkt⟩
  · rintro ⟨k, hk, hklive, hkt⟩
    by_cases hid : k.id = j.id
    · obtain rfl := w.queue.eq_of_id_eq hk hj hid
      exact ⟨_, .inl rfl, hst, hkt⟩
    · exact ⟨k, .inr ⟨hk, hid⟩, hklive, hkt⟩

/-- A completed job's trial has its row. -/
theorem mem_trials_complete {w : TrialWorld} {id : String} {queue : Queue String JobData}
    {j : Job String JobData} (hj : w.queue.lookup id = some j)
    (hrow : (trialOf puzzleId strategyName j.data).all (· ∈ w.rows))
    (h : w.queue.complete removeOnCompleteCount id = some queue) (t : QueuedTrial) :
    t ∈ ({ w with queue := queue } : TrialWorld).trials puzzleId strategyName ↔
      t ∈ w.trials puzzleId strategyName := by
  obtain ⟨moved, hmoved, rfl⟩ := Option.map_eq_some_iff.mp h
  obtain ⟨k, hk, hkid, -, rfl⟩ := Queue.move_eq_some.mp hmoved
  obtain rfl : j = k := by
    obtain ⟨hmem, hid⟩ := Queue.lookup_eq_some.mp hj
    exact w.queue.eq_of_id_eq hmem hk (hid.trans hkid.symm)
  simp only [mem_trials]
  constructor
  · rintro (hrows | ⟨k, hkmem, hklive, hkt⟩)
    · exact .inl hrows
    · rcases Queue.mem_relist.mp (Queue.mem_of_mem_trim hkmem) with rfl | ⟨hkmem, -⟩
      · cases hklive
      · exact .inr ⟨k, hkmem, hklive, hkt⟩
  · rintro (hrows | ⟨k, hkmem, hklive, hkt⟩)
    · exact .inl hrows
    · by_cases hid : k.id = j.id
      · obtain rfl := w.queue.eq_of_id_eq hkmem hk hid
        rw [hkt] at hrow
        exact .inl (by simpa using hrow)
      · refine .inr ⟨k, Queue.mem_trim_of_ne (Queue.mem_relist.mpr (.inr ⟨hkmem, hid⟩)) ?_, hklive,
          hkt⟩
        rintro hcompleted
        rw [hcompleted] at hklive
        cases hklive

/-- Workers neither make a trial nor lose one, and leave the calls alone. -/
theorem workStep_trials {w w' : TrialWorld} {e : WorkStep}
    (h : w.workStep puzzleId strategyName e = some w') :
    (∀ t, t ∈ w'.trials puzzleId strategyName ↔ t ∈ w.trials puzzleId strategyName) ∧
      w'.call = w.call ∧ w'.queued = w.queued := by
  cases e with
  | start id =>
    obtain ⟨j, hj, h⟩ := Option.bind_eq_some_iff.mp h
    split at h
    · rename_i hst
      cases h
      refine ⟨mem_trials_relist (Queue.lookup_eq_some.mp hj).1 ?_ rfl, rfl, rfl⟩
      rcases hst with hst | hst <;> rw [hst] <;> rfl
    · cases h
  | relocate id state =>
    obtain ⟨j, hj, h⟩ := Option.bind_eq_some_iff.mp h
    split at h
    · rename_i hst
      cases h
      exact ⟨mem_trials_relist (Queue.lookup_eq_some.mp hj).1 (JobState.notStarted_live hst.1)
        (JobState.notStarted_live hst.2), rfl, rfl⟩
    · cases h
  | putBack id state =>
    obtain ⟨j, hj, h⟩ := Option.bind_eq_some_iff.mp h
    split at h
    · rename_i hst
      cases h
      refine ⟨mem_trials_relist (Queue.lookup_eq_some.mp hj).1 ?_
        (JobState.notStarted_live hst.2), rfl, rfl⟩
      rw [hst.1]
      rfl
    · cases h
  | writeRow id =>
    obtain ⟨j, hj, h⟩ := Option.bind_eq_some_iff.mp h
    split at h
    · rename_i hactive
      obtain ⟨trial, htrial, h⟩ := Option.bind_eq_some_iff.mp h
      split at h
      · cases h
        refine ⟨fun t => ?_, rfl, rfl⟩
        simp only [mem_trials, List.mem_cons]
        constructor
        · rintro ((rfl | hrows) | hjob)
          · refine .inr ⟨j, (Queue.lookup_eq_some.mp hj).1, ?_, htrial⟩
            rw [hactive]
            rfl
          · exact .inl hrows
          · exact .inr hjob
        · rintro (hrows | hjob)
          · exact .inl (.inr hrows)
          · exact .inr hjob
      · split at h
        · cases h
          exact ⟨fun _ => Iff.rfl, rfl, rfl⟩
        · cases h
    · cases h
  | complete id =>
    obtain ⟨j, hj, h⟩ := Option.bind_eq_some_iff.mp h
    split at h
    · rename_i hrow
      obtain ⟨queue, hqueue, rfl⟩ := Option.map_eq_some_iff.mp h
      exact ⟨mem_trials_complete hj hrow hqueue, rfl, rfl⟩
    · cases h
  | enqueueOther id data =>
    simp only [workStep] at h
    split at h
    · rename_i hother
      cases h
      refine ⟨fun t => ?_, rfl, rfl⟩
      simp only [mem_trials, Queue.mem_add]
      refine or_congr_right ⟨?_, ?_⟩
      · rintro ⟨k, hk | ⟨rfl, -⟩, hlive, hkt⟩
        · exact ⟨k, hk, hlive, hkt⟩
        · rw [hother] at hkt
          cases hkt
      · rintro ⟨k, hk, hlive, hkt⟩
        exact ⟨k, .inl hk, hlive, hkt⟩
    · cases h

/-! ### What a call sees -/

/-- A page records what it covers; what lies behind a short page does not exist. -/
theorem mem_readPage_or_unread {w : TrialWorld} {states : List JobState} {read : PageRead}
    {t : QueuedTrial} (h : t ∈ w.unread puzzleId strategyName states read) :
    t ∈ (w.readPage puzzleId strategyName states read).trials ∨
      t ∈ w.unread puzzleId strategyName states
        (w.readPage puzzleId strategyName states read) := by
  unfold unread at h
  split at h
  · cases h
  · obtain ⟨st, hst, ht⟩ := List.mem_flatMap.mp h
    obtain ⟨j, hj, hjt⟩ := mem_trialsOf.mp ht
    rw [← List.take_append_drop queuePageSize ((w.queue.ofState st).drop read.start),
      List.mem_append, List.drop_drop] at hj
    rcases hj with hj | hj
    · refine .inl (List.mem_append_right _ (List.mem_filterMap.mpr ⟨j, ?_, hjt⟩))
      exact List.mem_flatMap.mpr ⟨st, hst, hj⟩
    · right
      have hlong : ¬ (w.queue.getJobs states read.start queuePageSize).length <
          queuePageSize := by
        have hone : (((w.queue.ofState st).drop read.start).take queuePageSize).Sublist
            (w.queue.getJobs states read.start queuePageSize) :=
          List.sublist_flatten_of_mem (List.mem_map_of_mem hst)
        have hlength := hone.length_le
        have hbehind := List.length_pos_of_mem hj
        simp only [List.length_take, List.length_drop] at hlength hbehind
        omega
      have hgoes : (w.readPage puzzleId strategyName states read).finished = false := by
        simpa [readPage] using hlong
      rw [unread, hgoes]
      exact List.mem_flatMap.mpr ⟨st, hst, mem_trialsOf.mpr ⟨j, hj, hjt⟩⟩

/-- A page holds trials of live jobs only. -/
theorem readPage_subset {w : TrialWorld} {states : List JobState} {read : PageRead}
    (hstates : ∀ st ∈ states, st.live) {t : QueuedTrial}
    (h : t ∈ (w.readPage puzzleId strategyName states read).trials) :
    t ∈ read.trials ∨ t ∈ w.trials puzzleId strategyName := by
  rcases List.mem_append.mp h with h | h
  · exact .inl h
  · obtain ⟨j, hj, hjt⟩ := List.mem_filterMap.mp h
    obtain ⟨st, hst, hpage⟩ := List.mem_flatMap.mp hj
    obtain ⟨hmem, hstate⟩ := List.mem_filter.mp (List.mem_of_mem_drop (List.mem_of_mem_take hpage))
    refine .inr (mem_trials.mpr (.inr ⟨j, hmem, ?_, hjt⟩))
    rw [of_decide_eq_true hstate]
    exact hstates st hst

theorem sees_iff {w : TrialWorld} {c : TrialCall} {t : QueuedTrial} :
    w.sees puzzleId strategyName c t ↔ t ∈ c.recorded ∨ (c.existingRuns = none ∧ t ∈ w.rows) ∨
      t ∈ w.unread puzzleId strategyName pendingStates c.pending ∨
      t ∈ w.unread puzzleId strategyName [.active] c.active := by
  simp [sees]

theorem mem_recorded {c : TrialCall} {t : QueuedTrial} :
    t ∈ c.recorded ↔ t ∈ c.existingRuns.getD [] ∨ t ∈ c.pending.trials ∨ t ∈ c.active.trials := by
  simp [TrialCall.recorded]

/-- A call that begins has everything ahead of it. -/
theorem sees_fresh {w : TrialWorld} {model date : String} {budgetTier : Option String}
    {t : QueuedTrial} (h : t ∈ w.trials puzzleId strategyName) :
    w.sees puzzleId strategyName ⟨model, date, budgetTier, none, .fresh, .fresh⟩ t := by
  rw [sees_iff]
  rcases mem_trials.mp h with hrow | ⟨j, hj, hlive, hjt⟩
  · exact .inr (.inl ⟨rfl, hrow⟩)
  · have hplace (states : List JobState) (hst : j.state ∈ states) :
        t ∈ w.unread puzzleId strategyName states .fresh :=
      List.mem_flatMap.mpr ⟨j.state, hst, mem_trialsOf.mpr
        ⟨j, List.mem_filter.mpr ⟨hj, by simp⟩, hjt⟩⟩
    right
    right
    cases hstate : j.state with
    | waiting => exact .inl (hplace _ (by simp [hstate, pendingStates]))
    | delayed => exact .inl (hplace _ (by simp [hstate, pendingStates]))
    | prioritized => exact .inl (hplace _ (by simp [hstate, pendingStates]))
    | paused => exact .inl (hplace _ (by simp [hstate, pendingStates]))
    | active => exact .inr (hplace _ (by simp [hstate]))
    | completed => simp [hstate, JobState.live] at hlive
    | failed => simp [hstate, JobState.live] at hlive

/-- What a call does before its decision takes no trial out of its sight. -/
theorem sees_callStep {w w' : TrialWorld} {e : CallStep} {c c' : TrialCall} {t : QueuedTrial}
    (h : w.callStep puzzleId strategyName limit e = some w') (hcall : w.call = some c)
    (hcall' : w'.call = some c') (hbegins : c.RowsFirst)
    (ht : w.sees puzzleId strategyName c t) : w'.sees puzzleId strategyName c' t := by
  cases callStep_cases h with
  | acquire _ _ _ hnone =>
    rw [hcall] at hnone
    cases hnone
  | readRows before hbefore hnone =>
    obtain rfl := Option.some.inj (hcall.symm.trans hbefore)
    cases hcall'
    rw [sees_iff, mem_recorded]
    rcases sees_iff.mp ht with hread | ⟨-, hrow⟩ | hunread
    · rw [mem_recorded, hnone, (hbegins hnone).1, (hbegins hnone).2] at hread
      simp [PageRead.fresh] at hread
    · exact .inl (.inl hrow)
    · exact .inr (.inr hunread)
  | readPending before hbefore hrows =>
    obtain rfl := Option.some.inj (hcall.symm.trans hbefore)
    cases hcall'
    rw [sees_iff, mem_recorded]
    rcases sees_iff.mp ht with hread | ⟨hnone, -⟩ | hunread | hunread
    · rcases mem_recorded.mp hread with hread | hread | hread
      · exact .inl (.inl hread)
      · exact .inl (.inr (.inl (List.mem_append_left _ hread)))
      · exact .inl (.inr (.inr hread))
    · exact absurd hnone hrows
    · rcases mem_readPage_or_unread hunread with hread | hunread
      · exact .inl (.inr (.inl hread))
      · exact .inr (.inr (.inl hunread))
    · exact .inr (.inr (.inr hunread))
  | readActive before hbefore hrows =>
    obtain rfl := Option.some.inj (hcall.symm.trans hbefore)
    cases hcall'
    rw [sees_iff, mem_recorded]
    rcases sees_iff.mp ht with hread | ⟨hnone, -⟩ | hunread | hunread
    · rcases mem_recorded.mp hread with hread | hread | hread
      · exact .inl (.inl hread)
      · exact .inl (.inr (.inl hread))
      · exact .inl (.inr (.inr (List.mem_append_left _ hread)))
    · exact absurd hnone hrows
    · exact .inr (.inr (.inl hunread))
    · rcases mem_readPage_or_unread hunread with hread | hunread
      · exact .inl (.inr (.inr hread))
      · exact .inr (.inr (.inr hunread))
  | conclude =>
    rw [conclude_call] at hcall'
    cases hcall'
  | abandon => cases hcall'

/-- A call reads the rows first. -/
theorem rowsFirst_callStep {w w' : TrialWorld} {e : CallStep} {c' : TrialCall}
    (h : w.callStep puzzleId strategyName limit e = some w') (hcall' : w'.call = some c') :
    c'.RowsFirst := by
  cases callStep_cases h with
  | acquire =>
    cases hcall'
    exact fun _ => ⟨rfl, rfl⟩
  | readRows =>
    cases hcall'
    exact fun hnone => nomatch hnone
  | readPending c _ hrows | readActive c _ hrows =>
    cases hcall'
    exact fun hnone => absurd hnone hrows
  | conclude =>
    rw [conclude_call] at hcall'
    cases hcall'
  | abandon => cases hcall'

/-- A call that has read everything has recorded what it sees. -/
theorem mem_recorded_of_sees {w : TrialWorld} {c : TrialCall} {t : QueuedTrial}
    (h : w.sees puzzleId strategyName c t) (hbegins : c.RowsFirst) (hpending : c.pending.finished)
    (hactive : c.active.finished) : t ∈ c.recorded := by
  rcases sees_iff.mp h with hread | ⟨hnone, -⟩ | hunread | hunread
  · exact hread
  · rw [(hbegins hnone).1] at hpending
    cases hpending
  · simp [unread, hpending] at hunread
  · simp [unread, hactive] at hunread

/-! ### The invariant -/

/-- Every number has one model, and no model is over its cap. -/
structure Consistent (puzzleId : ℕ) (strategyName : String) (limit : ℕ) (w : TrialWorld) :
    Prop where
  one_model : OneModelEach (w.trials puzzleId strategyName)
  within_cap : ∀ model, (w.trialNumbers puzzleId strategyName model).card ≤ limit

/-- What holds of a call in progress: it sees every trial, and has read nothing else. -/
structure CallInv (puzzleId : ℕ) (strategyName : String) (w : TrialWorld) (c : TrialCall) :
    Prop where
  sees_all : ∀ t ∈ w.trials puzzleId strategyName, w.sees puzzleId strategyName c t
  only_trials : ∀ t ∈ c.recorded, t ∈ w.trials puzzleId strategyName
  begins : c.RowsFirst

/-- A consistent world whose queued trials are still there under distinct numbers. -/
structure TrialInv (puzzleId : ℕ) (strategyName : String) (limit : ℕ) (w : TrialWorld) :
    Prop where
  consistent : Consistent puzzleId strategyName limit w
  queued_trials : ∀ t ∈ w.queued, t ∈ w.trials puzzleId strategyName
  queued_nodup : (w.queued.map (·.trialNumber)).Nodup
  call : ∀ c, w.call = some c → CallInv puzzleId strategyName w c

theorem Consistent.congr {w w' : TrialWorld} (h : Consistent puzzleId strategyName limit w)
    (hsame : ∀ t, t ∈ w'.trials puzzleId strategyName ↔ t ∈ w.trials puzzleId strategyName) :
    Consistent puzzleId strategyName limit w' := by
  refine ⟨fun t ht u hu => h.one_model t ((hsame t).mp ht) u ((hsame u).mp hu), fun model => ?_⟩
  have hnumbers : w'.trialNumbers puzzleId strategyName model =
      w.trialNumbers puzzleId strategyName model := by
    ext n
    simp only [trialNumbers, List.mem_toFinset, List.mem_map, List.mem_filter, hsame]
  exact hnumbers ▸ h.within_cap model

/-- A call that has read everything knows every trial and nothing else. -/
theorem CallInv.mem_trialModels {w : TrialWorld} {c : TrialCall}
    (h : CallInv puzzleId strategyName w c) (hone : OneModelEach (w.trials puzzleId strategyName))
    (hpending : c.pending.finished) (hactive : c.active.finished) (t : QueuedTrial) :
    t ∈ c.trialModels ↔ t ∈ w.trials puzzleId strategyName := by
  have hrecorded : t ∈ c.trialModels ↔ t ∈ c.recorded := by
    have hrec : OneModelEach ([] ++ c.recorded) := fun u hu v hv =>
      hone u (h.only_trials u hu) v (h.only_trials v hv)
    simpa only [TrialCall.trialModels, List.not_mem_nil, false_or] using mem_foldl_setTrial hrec t
  rw [hrecorded]
  exact ⟨h.only_trials t, fun ht =>
    mem_recorded_of_sees (h.sees_all t ht) h.begins hpending hactive⟩

/-- The count that a call checks is at least the model's number of trials. -/
theorem CallInv.card_le_modelRunCount {w : TrialWorld} {c : TrialCall}
    (h : CallInv puzzleId strategyName w c) (hone : OneModelEach (w.trials puzzleId strategyName))
    (hpending : c.pending.finished) (hactive : c.active.finished) :
    (w.trialNumbers puzzleId strategyName c.model).card ≤ c.modelRunCount := by
  have hsubset : w.trialNumbers puzzleId strategyName c.model ⊆
      ((c.trialModels.filter (·.model = some c.model)).map (·.trialNumber)).toFinset := by
    intro n hn
    simp only [trialNumbers, List.mem_toFinset, List.mem_map, List.mem_filter] at hn ⊢
    obtain ⟨t, ⟨ht, hmodel⟩, hnumber⟩ := hn
    exact ⟨t, ⟨(h.mem_trialModels hone hpending hactive t).mpr ht, hmodel⟩, hnumber⟩
  calc (w.trialNumbers puzzleId strategyName c.model).card
      ≤ ((c.trialModels.filter (·.model = some c.model)).map
          (·.trialNumber)).toFinset.card := Finset.card_le_card hsubset
    _ ≤ ((c.trialModels.filter (·.model = some c.model)).map (·.trialNumber)).length :=
        List.toFinset_card_le _
    _ = c.modelRunCount := List.length_map _

/-- One more trial under a new number, of a model below its cap. -/
theorem Consistent.insert {w w' : TrialWorld} {number : ℕ} {model : String}
    (h : Consistent puzzleId strategyName limit w)
    (hmem : ∀ t, t ∈ w'.trials puzzleId strategyName ↔
      t ∈ w.trials puzzleId strategyName ∨ t = ⟨number, some model⟩)
    (hnew : ∀ t ∈ w.trials puzzleId strategyName, t.trialNumber < number)
    (hroom : (w.trialNumbers puzzleId strategyName model).card < limit) :
    Consistent puzzleId strategyName limit w' := by
  constructor
  case one_model =>
    intro t ht u hu hnumber
    rcases (hmem t).mp ht with ht | rfl
    · rcases (hmem u).mp hu with hu | rfl
      · exact h.one_model t ht u hu hnumber
      · exact absurd hnumber (Nat.ne_of_lt (hnew t ht))
    · rcases (hmem u).mp hu with hu | rfl
      · exact absurd hnumber.symm (Nat.ne_of_lt (hnew u hu))
      · rfl
  case within_cap =>
    intro other
    have hnumbers : ∀ n ∈ w'.trialNumbers puzzleId strategyName other,
        n ∈ w.trialNumbers puzzleId strategyName other ∨ other = model ∧ n = number := by
      intro n hn
      simp only [trialNumbers, List.mem_toFinset, List.mem_map, List.mem_filter, hmem] at hn ⊢
      obtain ⟨t, ⟨ht | rfl, hmodel⟩, hnumber⟩ := hn
      · exact .inl ⟨t, ⟨ht, hmodel⟩, hnumber⟩
      · have hmodel : model = other := by simpa using hmodel
        exact .inr ⟨hmodel.symm, hnumber.symm⟩
    by_cases hother : other = model
    · subst hother
      have hsubset : w'.trialNumbers puzzleId strategyName other ⊆
          Insert.insert number (w.trialNumbers puzzleId strategyName other) := fun n hn =>
        Finset.mem_insert.mpr ((hnumbers n hn).elim .inr fun hn => .inl hn.2)
      exact (Finset.card_le_card hsubset).trans ((Finset.card_insert_le _ _).trans hroom)
    · have hsubset : w'.trialNumbers puzzleId strategyName other ⊆
          w.trialNumbers puzzleId strategyName other := fun n hn =>
        (hnumbers n hn).elim id fun hn => absurd hn.1 hother
      exact (Finset.card_le_card hsubset).trans (h.within_cap other)

/-- A job under an unknown id adds its trial. -/
theorem mem_trials_add {w w' : TrialWorld} {id : String} {data : JobData} {trial : QueuedTrial}
    (hrows : w'.rows = w.rows) (hqueue : w'.queue = w.queue.add id data .waiting)
    (hknown : w.queue.lookup id = none)
    (htrial : trialOf puzzleId strategyName data = some trial) (t : QueuedTrial) :
    t ∈ w'.trials puzzleId strategyName ↔ t ∈ w.trials puzzleId strategyName ∨ t = trial := by
  simp only [mem_trials, hrows, hqueue, Queue.mem_add, or_assoc]
  refine or_congr_right ⟨?_, ?_⟩
  · rintro ⟨k, hk | ⟨rfl, -⟩, hlive, hkt⟩
    · exact .inl ⟨k, hk, hlive, hkt⟩
    · exact .inr (Option.some.inj (htrial ▸ hkt)).symm
  · rintro (⟨k, hk, hlive, hkt⟩ | rfl)
    · exact ⟨k, .inl hk, hlive, hkt⟩
    · exact ⟨_, .inr ⟨rfl, hknown⟩, rfl, htrial⟩

/-- The decision of a call that has read everything keeps the invariant. -/
theorem TrialInv.conclude {w : TrialWorld} {c : TrialCall}
    (h : TrialInv puzzleId strategyName limit w) (hcall : w.call = some c)
    (hpending : c.pending.finished) (hactive : c.active.finished) :
    TrialInv puzzleId strategyName limit (w.conclude puzzleId strategyName limit c) := by
  have hc := h.call c hcall
  have hended : TrialInv puzzleId strategyName limit { w with call := none } :=
    ⟨h.consistent.congr fun _ => Iff.rfl, h.queued_trials, h.queued_nodup, by simp⟩
  unfold TrialWorld.conclude
  split
  · rename_i trialNumber hdecision
    obtain ⟨hcap, rfl⟩ := TrialCall.decision_eq_some.mp hdecision
    simp only
    generalize hid : runStrategyJobId puzzleId strategyName (some c.model) c.nextTrialNumber = id
    generalize hdata : JobData.runStrategy
      (c.jobData puzzleId strategyName c.nextTrialNumber) = data
    cases hknown : w.queue.lookup id with
    | some j =>
      have hsame : w.queue.add id data .waiting = w.queue := by simp [Queue.add, hknown]
      simp only [hsame, Option.isSome_some, ↓reduceIte]
      exact hended
    | none =>
      simp only [Option.isSome_none, Bool.false_eq_true, ↓reduceIte]
      have htrial : trialOf puzzleId strategyName data =
          some ⟨c.nextTrialNumber, some c.model⟩ := by
        rw [← hdata]
        simp [trialOf, TrialCall.jobData]
      let w' : TrialWorld := ⟨w.rows, w.queue.add id data .waiting, none,
        ⟨c.nextTrialNumber, some c.model⟩ :: w.queued⟩
      have hmem : ∀ t, t ∈ w'.trials puzzleId strategyName ↔
          t ∈ w.trials puzzleId strategyName ∨ t = ⟨c.nextTrialNumber, some c.model⟩ :=
        mem_trials_add rfl rfl hknown htrial
      have hnew : ∀ t ∈ w.trials puzzleId strategyName, t.trialNumber < c.nextTrialNumber :=
        fun t ht => TrialCall.lt_nextTrialNumber
          ((hc.mem_trialModels h.consistent.one_model hpending hactive t).mpr ht)
      have hroom : (w.trialNumbers puzzleId strategyName c.model).card < limit :=
        (hc.card_le_modelRunCount h.consistent.one_model hpending hactive).trans_lt hcap.2
      refine ⟨h.consistent.insert hmem hnew hroom, ?_, ?_, by simp⟩
      · rintro t (_ | ⟨_, ht⟩)
        · exact (hmem _).mpr (.inr rfl)
        · exact (hmem t).mpr (.inl (h.queued_trials t ht))
      · refine List.nodup_cons.mpr ⟨fun hold => ?_, h.queued_nodup⟩
        obtain ⟨t, ht, hnumber⟩ := List.mem_map.mp hold
        exact Nat.ne_of_lt (hnew t (h.queued_trials t ht)) hnumber
  · exact hended

/-- Replacing what a call has read, while rows and jobs stay. -/
theorem TrialInv.read {w : TrialWorld} {c : TrialCall}
    (h : TrialInv puzzleId strategyName limit w) (hc : CallInv puzzleId strategyName w c) :
    TrialInv puzzleId strategyName limit { w with call := some c } := by
  refine ⟨h.consistent.congr fun _ => Iff.rfl, h.queued_trials, h.queued_nodup, ?_⟩
  rintro _ ⟨⟩
  exact ⟨hc.sees_all, hc.only_trials, hc.begins⟩

/-- A step of a call keeps the invariant. -/
theorem TrialInv.callStep {w w' : TrialWorld} {e : CallStep}
    (h : TrialInv puzzleId strategyName limit w)
    (hstep : w.callStep puzzleId strategyName limit e = some w') :
    TrialInv puzzleId strategyName limit w' := by
  cases callStep_cases hstep with
  | acquire model date budgetTier =>
    exact h.read ⟨fun t ht => sees_fresh ht, by simp [TrialCall.recorded, PageRead.fresh],
      fun _ => ⟨rfl, rfl⟩⟩
  | readRows c hcall =>
    have hc := h.call c hcall
    refine h.read ⟨fun t ht => ?_, fun t ht => ?_, rowsFirst_callStep hstep rfl⟩
    · have hsees := sees_callStep hstep hcall rfl hc.begins (hc.sees_all t ht)
      exact hsees
    · rcases mem_recorded.mp ht with hrow | hread
      · exact mem_trials.mpr (.inl hrow)
      · exact hc.only_trials t (mem_recorded.mpr (.inr hread))
  | readPending c hcall =>
    have hc := h.call c hcall
    refine h.read ⟨fun t ht => ?_, fun t ht => ?_, rowsFirst_callStep hstep rfl⟩
    · have hsees := sees_callStep hstep hcall rfl hc.begins (hc.sees_all t ht)
      exact hsees
    · rcases mem_recorded.mp ht with hread | hread | hread
      · exact hc.only_trials t (mem_recorded.mpr (.inl hread))
      · rcases readPage_subset (by simp [pendingStates, JobState.live]) hread with hread | htrial
        · exact hc.only_trials t (mem_recorded.mpr (.inr (.inl hread)))
        · exact htrial
      · exact hc.only_trials t (mem_recorded.mpr (.inr (.inr hread)))
  | readActive c hcall =>
    have hc := h.call c hcall
    refine h.read ⟨fun t ht => ?_, fun t ht => ?_, rowsFirst_callStep hstep rfl⟩
    · have hsees := sees_callStep hstep hcall rfl hc.begins (hc.sees_all t ht)
      exact hsees
    · rcases mem_recorded.mp ht with hread | hread | hread
      · exact hc.only_trials t (mem_recorded.mpr (.inl hread))
      · exact hc.only_trials t (mem_recorded.mpr (.inr (.inl hread)))
      · rcases readPage_subset (by simp [JobState.live]) hread with hread | htrial
        · exact hc.only_trials t (mem_recorded.mpr (.inr (.inr hread)))
        · exact htrial
  | conclude c hcall hpending hactive => exact h.conclude hcall hpending hactive
  | abandon => exact ⟨h.consistent.congr fun _ => Iff.rfl, h.queued_trials, h.queued_nodup, by simp⟩

/-- A step that carries no trial past the reads keeps the invariant. -/
theorem TrialInv.step {w w' : TrialWorld} {e : TrialEvent}
    (h : TrialInv puzzleId strategyName limit w)
    (hpast : w.carriesNothingPast puzzleId strategyName e)
    (hstep : w.step puzzleId strategyName limit e = some w') :
    TrialInv puzzleId strategyName limit w' := by
  cases e with
  | call e => exact h.callStep hstep
  | work e =>
    obtain ⟨hsame, hcalls, hqueued⟩ := workStep_trials hstep
    refine ⟨h.consistent.congr hsame, fun t ht => ?_, hqueued ▸ h.queued_nodup, fun c hcall => ?_⟩
    · exact (hsame t).mpr (h.queued_trials t (hqueued ▸ ht))
    · have hc := h.call c (hcalls ▸ hcall)
      refine ⟨fun t ht => ?_, fun t ht => (hsame t).mpr (hc.only_trials t ht), hc.begins⟩
      have ht := (hsame t).mp ht
      have hstep : w.workStep puzzleId strategyName e = some w' := hstep
      have hkept : w.sees puzzleId strategyName c t = false ∨
          w'.sees puzzleId strategyName c t = true := by
        simp only [carriesNothingPast, ← hcalls, hcall, Option.all_some, hstep,
          List.all_eq_true] at hpast
        simpa using hpast t ht
      rcases hkept with hnot | hsees
      · rw [hc.sees_all t ht] at hnot
        cases hnot
      · exact hsees

/-- While no step carries a trial past the reads of the call in progress, no two queued trials
share their number and no model has more trials than the cap. -/
theorem queued_trialNumbers_nodup {w₀ w : TrialWorld}
    (hstart : Consistent puzzleId strategyName limit w₀) (hcall : w₀.call = none)
    (hqueued : w₀.queued = [])
    (h : Run.Reaches (fun w e => w.step puzzleId strategyName limit e)
      (fun w e => w.carriesNothingPast puzzleId strategyName e) w₀ w) :
    (w.queued.map (·.trialNumber)).Nodup ∧
      ∀ model, (w.trialNumbers puzzleId strategyName model).card ≤ limit := by
  have hfirst : TrialInv puzzleId strategyName limit w₀ :=
    ⟨hstart, by simp [hqueued], by simp [hqueued], by simp [hcall]⟩
  have hlast : TrialInv puzzleId strategyName limit w :=
    h.invariant hfirst fun _ _ _ hw hpast hstep => hw.step hpast hstep
  exact ⟨hlast.queued_nodup, hlast.consistent.within_cap⟩

/-- No row, no job, no call. -/
def noTrials : TrialWorld := ⟨[], .empty, none, []⟩

theorem noTrials_consistent : Consistent puzzleId strategyName limit noTrials :=
  ⟨by simp [OneModelEach, noTrials, trials, trialsOf, Queue.empty],
    by simp [noTrials, trialNumbers, trials, trialsOf, Queue.empty]⟩

/-- An undisturbed call. -/
def wholeCall (model : String) : List TrialEvent :=
  [.acquire model "2023-06-12" none, .readRows, .readPending, .readActive, .conclude].map .call

/-- Two models on one puzzle, the first trial started between the two calls. -/
theorem queued_trialNumbers_nodup_two_models :
    ∃ w : TrialWorld, w.queued = [⟨2, some "b"⟩, ⟨1, some "a"⟩] ∧
      (w.queued.map (·.trialNumber)).Nodup := by
  obtain ⟨w, hrun, hqueued⟩ := Run.exists_reaches
    (fun w e => TrialWorld.step 1 "llm-openai" 3 w e)
    (fun w e => w.carriesNothingPast 1 "llm-openai" e) noTrials
    (wholeCall "a" ++ .work (.start "run-1-llm-openai-a-1") :: wholeCall "b")
    (fun w => w.queued = [⟨2, some "b"⟩, ⟨1, some "a"⟩]) (by decide)
  exact ⟨w, by simpa using hqueued,
    (queued_trialNumbers_nodup noTrials_consistent rfl rfl hrun).1⟩

/-- A worker that writes its row after a call has read the rows, and completes before the call
reads the queue, is missed: the call takes its number again. -/
theorem completed_between_reads_is_missed :
    ∃ w, Run.Reaches (fun w e => TrialWorld.step 1 "llm-openai" 3 w e) Run.always noTrials w ∧
      w.queued = [⟨1, some "b"⟩, ⟨1, some "a"⟩] ∧
      ¬ (w.queued.map (·.trialNumber)).Nodup := by
  obtain ⟨w, hrun, hqueued⟩ := Run.exists_reaches
    (fun w e => TrialWorld.step 1 "llm-openai" 3 w e) Run.always noTrials
    (wholeCall "a" ++ [.work (.start "run-1-llm-openai-a-1"),
      .call (.acquire "b" "2023-06-12" none), .call .readRows,
      .work (.writeRow "run-1-llm-openai-a-1"), .work (.complete "run-1-llm-openai-a-1"),
      .call .readPending, .call .readActive, .call .conclude])
    (fun w => w.queued = [⟨1, some "b"⟩, ⟨1, some "a"⟩]) (by decide)
  have hqueued := of_decide_eq_true hqueued
  exact ⟨w, hrun, hqueued, by simp [hqueued]⟩

end TrialWorld

end Connections

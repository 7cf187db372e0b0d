import Connections.Library.Run
import Mathlib.Data.Nat.Notation

/-!
# Retried jobs

A queue gives a job a number of attempts.  An attempt works on a store step by step, until it
returns or throws somewhere on the way.  After every attempt that throws a hook looks at the status
in the store, and writes when it finds a certain one.
-/

namespace Retry

/-- The work of an attempt on a store, and the hook. -/
structure Body (σ ε ρ : Type*) where
  /-- One step of an attempt. -/
  step : σ → ε → Option σ
  /-- What the attempt returns with a step that is its last. -/
  returns : σ → ε → Option ρ
  /-- The store after an attempt has thrown. -/
  drop : σ → σ
  status : σ → Option ρ
  /-- The status that makes the hook write. -/
  hooked : ρ
  hook : ℕ → σ → σ

/-- How an attempt ended. -/
inductive Outcome (ρ : Type*)
  /-- It threw, over a store with this status. -/
  | threw (found : Option ρ)
  | returned (result : ρ)
  deriving DecidableEq

/-- The attempt threw. -/
def Outcome.isThrow {ρ : Type*} : Outcome ρ → Bool
  | .threw _ => true
  | .returned _ => false

/-- A job: its store, the attempt that is under way with what it is about to return, the attempts
that are over, and how often the hook wrote. -/
structure Job (σ ρ : Type*) where
  store : σ
  attempt : Option (Option ρ)
  past : List (Outcome ρ)
  hookWrites : ℕ

/-- What can happen to a job. -/
inductive Event (ε : Type*)
  | start
  | work (e : ε)
  | throw (now : ℕ)
  | finish

variable {σ ε ρ : Type*}

/-- A job without attempts. -/
def Job.new (store : σ) : Job σ ρ := ⟨store, none, [], 0⟩

section Step

variable [DecidableEq ρ]

/-- One step of a job with a number of attempts. -/
def Body.next (body : Body σ ε ρ) (attempts : ℕ) (job : Job σ ρ) : Event ε → Option (Job σ ρ)
  | .start =>
    if job.attempt.isNone ∧ job.past.length < attempts ∧ job.past.all (·.isThrow) then
      some { job with attempt := some none }
    else none
  | .work e =>
    match job.attempt with
    | some none => (body.step job.store e).map fun store =>
      { job with store := store, attempt := some (body.returns job.store e) }
    | _ => none
  | .throw now =>
    match job.attempt with
    | some _ =>
      let store := body.drop job.store
      some {
        store := body.hook now store
        attempt := none
        past := job.past ++ [.threw (body.status store)]
        hookWrites :=
          if body.status store = some body.hooked then job.hookWrites + 1 else job.hookWrites }
    | none => none
  | .finish =>
    match job.attempt with
    | some (some result) =>
      some { job with attempt := none, past := job.past ++ [.returned result] }
    | _ => none

/-- What one step can do, branch by branch. -/
inductive Body.NextCase (body : Body σ ε ρ) (job : Job σ ρ) : Job σ ρ → Prop
  | started : job.attempt = none → (∀ o ∈ job.past, o.isThrow) →
      NextCase body job { job with attempt := some none }
  | worked (e : ε) (store : σ) : job.attempt = some none → body.step job.store e = some store →
      NextCase body job
        { job with store := store, attempt := some (body.returns job.store e) }
  | threwHooked (now : ℕ) (reached : Option ρ) : job.attempt = some reached →
      body.status (body.drop job.store) = some body.hooked →
      NextCase body job ⟨body.hook now (body.drop job.store), none,
        job.past ++ [.threw (some body.hooked)], job.hookWrites + 1⟩
  | threw (now : ℕ) (reached : Option ρ) : job.attempt = some reached →
      body.status (body.drop job.store) ≠ some body.hooked →
      NextCase body job ⟨body.hook now (body.drop job.store), none,
        job.past ++ [.threw (body.status (body.drop job.store))], job.hookWrites⟩
  | finished (result : ρ) : job.attempt = some (some result) →
      NextCase body job { job with attempt := none, past := job.past ++ [.returned result] }

/-- Every step of a job is one of these. -/
theorem Body.next_cases {body : Body σ ε ρ} {attempts : ℕ} {job job' : Job σ ρ} {e : Event ε}
    (h : body.next attempts job e = some job') : body.NextCase job job' := by
  obtain ⟨store, attempt, past, hookWrites⟩ := job
  cases e with
  | start =>
    simp only [Body.next] at h
    split at h
    · rename_i hstart
      cases h
      exact .started (Option.isNone_iff_eq_none.mp hstart.1) (List.all_eq_true.mp hstart.2.2)
    · cases h
  | work e =>
    rcases attempt with _ | _ | reached <;> simp only [Body.next, reduceCtorEq] at h
    obtain ⟨after, hstep, rfl⟩ := Option.map_eq_some_iff.mp h
    exact .worked e after rfl hstep
  | throw now =>
    rcases attempt with _ | reached <;> simp only [Body.next, reduceCtorEq] at h
    cases h
    by_cases hfound : body.status (body.drop store) = some body.hooked
    · simp only [hfound, ↓reduceIte]
      exact .threwHooked now reached rfl hfound
    · simp only [hfound, ↓reduceIte]
      exact .threw now reached rfl hfound
  | finish =>
    rcases attempt with _ | _ | reached <;> simp only [Body.next, reduceCtorEq] at h
    cases h
    exact .finished reached rfl

end Step

/-- The hook does not defeat the retries: it writes only when every attempt threw, and what an
attempt returned is what the store says. -/
structure Job.Sound (body : Body σ ε ρ) (job : Job σ ρ) : Prop where
  hook : 0 < job.hookWrites → ∀ o ∈ job.past, o.isThrow
  result : ∀ result, .returned result ∈ job.past → body.status job.store = some result

/-- No attempt that threw over the status of the hook is followed by one that returned. -/
def Job.Retryable (body : Body σ ε ρ) (job : Job σ ρ) : Prop :=
  job.past.Pairwise fun o later => o = .threw (some body.hooked) → later.isThrow

/-- What an attempt can rely on (`Inv`), and the stores that stay as the hook left them (`Stuck`),
with the status `mark`. -/
structure Body.Laws (body : Body σ ε ρ) (mark : ρ) (Inv Stuck : σ → Prop) : Prop where
  step_inv : ∀ {s e s'}, Inv s → body.step s e = some s' →
    Inv s' ∧ ∀ result, body.returns s e = some result → body.status s' = some result
  drop_inv : ∀ s, Inv (body.drop s)
  hook_inv : ∀ now s, Inv (body.hook now (body.drop s))
  hook_stuck : ∀ now s, body.status (body.drop s) = some body.hooked →
    Stuck (body.hook now (body.drop s))
  hook_other : ∀ now s, body.status s ≠ some body.hooked → body.hook now s = s
  stuck_step : ∀ {s e s'}, Stuck s → body.step s e = some s' → Stuck s'
  stuck_drop : ∀ {s}, Stuck s → Stuck (body.drop s)
  stuck_status : ∀ {s}, Stuck s → body.status s = some mark

/-- What is known of a job at any time. -/
structure Tracked (body : Body σ ε ρ) (Inv Stuck : σ → Prop) (job : Job σ ρ) : Prop where
  inv : Inv job.store
  returning : ∀ result, job.attempt = some (some result) → body.status job.store = some result
  results : ∀ result, .returned result ∈ job.past → body.status job.store = some result
  ended : ∀ result, .returned result ∈ job.past → job.attempt = none
  order : job.past.Pairwise fun o _ => o.isThrow
  writes : 0 < job.hookWrites ↔ .threw (some body.hooked) ∈ job.past
  stuck : .threw (some body.hooked) ∈ job.past → Stuck job.store

variable {body : Body σ ε ρ} {mark : ρ} {Inv Stuck : σ → Prop}

/-- While an attempt is under way, the ones before it threw. -/
theorem Tracked.all_threw {job : Job σ ρ} (h : Tracked body Inv Stuck job)
    {reached : Option ρ} (hattempt : job.attempt = some reached) : ∀ o ∈ job.past, o.isThrow := by
  intro o ho
  cases o with
  | threw found => rfl
  | returned result =>
    rw [h.ended result ho] at hattempt
    cases hattempt

/-- After attempts that all threw, one more may end any way. -/
theorem pairwise_concat {past : List (Outcome ρ)} (hthrew : ∀ o ∈ past, o.isThrow)
    (last : Outcome ρ) : (past ++ [last]).Pairwise fun o _ => o.isThrow := by
  rw [List.pairwise_append]
  exact ⟨List.pairwise_of_forall_mem_list fun o ho _ _ => hthrew o ho, List.pairwise_singleton _ _,
    fun o ho _ _ => hthrew o ho⟩

/-- Attempts that all threw returned nothing. -/
theorem not_returned_of_all_threw {past : List (Outcome ρ)} (hthrew : ∀ o ∈ past, o.isThrow)
    {result : ρ} : .returned result ∉ past := by
  intro hmem
  have hthrow := hthrew _ hmem
  cases hthrow

theorem tracked_new {store : σ} (hstore : Inv store) :
    Tracked body Inv Stuck (Job.new store) where
  inv := hstore
  returning := by simp [Job.new]
  results := by simp [Job.new]
  ended := by simp [Job.new]
  order := .nil
  writes := by simp [Job.new]
  stuck := by simp [Job.new]

variable [DecidableEq ρ]

/-- Every step keeps what is known of the job. -/
theorem Tracked.next (laws : body.Laws mark Inv Stuck) {attempts : ℕ} {job job' : Job σ ρ}
    {e : Event ε} (h : Tracked body Inv Stuck job) (hstep : body.next attempts job e = some job') :
    Tracked body Inv Stuck job' := by
  cases Body.next_cases hstep with
  | started hattempt hthrew =>
    refine ⟨h.inv, by simp, h.results, ?_, h.order, h.writes, h.stuck⟩
    exact fun result hmem => absurd hmem (not_returned_of_all_threw hthrew)
  | worked e store hattempt hwork =>
    obtain ⟨hinv, hreturns⟩ := laws.step_inv h.inv hwork
    have hnone {result : ρ} : .returned result ∉ job.past :=
      not_returned_of_all_threw (h.all_threw hattempt)
    refine ⟨hinv, ?_, fun result hmem => absurd hmem hnone, fun result hmem => absurd hmem hnone,
      h.order, h.writes, fun hmem => laws.stuck_step (h.stuck hmem) hwork⟩
    exact fun result hreached => hreturns result (Option.some.inj hreached)
  | threwHooked now reached hattempt hfound =>
    have hthrew := h.all_threw hattempt
    refine ⟨laws.hook_inv now _, by simp, ?_, by simp, pairwise_concat hthrew _, by simp,
      fun _ => laws.hook_stuck now _ hfound⟩
    intro result hmem
    simp only [List.mem_append, List.mem_singleton, reduceCtorEq, or_false] at hmem
    exact absurd hmem (not_returned_of_all_threw hthrew)
  | threw now reached hattempt hfound =>
    have hthrew := h.all_threw hattempt
    have hmem : .threw (some body.hooked) ∈
        job.past ++ [.threw (body.status (body.drop job.store))] ↔
          .threw (some body.hooked) ∈ job.past := by
      simp only [List.mem_append, List.mem_singleton, Outcome.threw.injEq, hfound.symm, or_false]
    refine ⟨laws.hook_inv now _, by simp, ?_, by simp, pairwise_concat hthrew _,
      h.writes.trans hmem.symm, ?_⟩
    · intro result hresult
      simp only [List.mem_append, List.mem_singleton, reduceCtorEq, or_false] at hresult
      exact absurd hresult (not_returned_of_all_threw hthrew)
    · intro hstuck
      rw [laws.hook_other now _ hfound]
      exact laws.stuck_drop (h.stuck (hmem.mp hstuck))
  | finished result hattempt =>
    have hthrew := h.all_threw hattempt
    have hmem : .threw (some body.hooked) ∈ job.past ++ [.returned result] ↔
        .threw (some body.hooked) ∈ job.past := by
      simp
    refine ⟨h.inv, by simp, ?_, by simp, pairwise_concat hthrew _, h.writes.trans hmem.symm,
      fun hstuck => h.stuck (hmem.mp hstuck)⟩
    intro other hother
    rcases List.mem_append.mp hother with hother | hother
    · exact absurd hother (not_returned_of_all_threw hthrew)
    · cases List.mem_singleton.mp hother
      exact h.returning result hattempt

/-- Whatever the attempts of a job do, the job stays tracked. -/
theorem reaches_tracked (laws : body.Laws mark Inv Stuck) {attempts : ℕ} {store : σ}
    {job : Job σ ρ} (hstore : Inv store)
    (hrun : Run.Reaches (body.next attempts) Run.always (Job.new store) job) :
    Tracked body Inv Stuck job :=
  hrun.invariant (tracked_new hstore) fun _ _ _ hinv _ hstep => hinv.next laws hstep

/-- The hook leaves the retries alone exactly as long as no attempt that threw over its status is
followed by one that returned; and after such a throw every store has the mark of the hook. -/
theorem sound_iff (laws : body.Laws mark Inv Stuck) {attempts : ℕ} {store : σ}
    {job : Job σ ρ} (hstore : Inv store)
    (hrun : Run.Reaches (body.next attempts) Run.always (Job.new store) job) :
    (job.Sound body ↔ job.Retryable body) ∧
      (.threw (some body.hooked) ∈ job.past → body.status job.store = some mark) := by
  have h := reaches_tracked laws hstore hrun
  refine ⟨⟨fun hsound => ?_, fun hretryable => ⟨fun hwrites o ho => ?_, h.results⟩⟩,
    fun hmem => laws.stuck_status (h.stuck hmem)⟩
  · refine List.Pairwise.imp_of_mem (fun ho hlater _ hhooked => ?_) h.order
    exact hsound.hook (h.writes.mpr (hhooked ▸ ho)) _ hlater
  · -- The throw that the hook saw splits the attempts: those before it were followed by another
    -- one, and those after it threw as well.
    obtain ⟨before, after, hsplit⟩ := List.append_of_mem (h.writes.mp hwrites)
    have horder := h.order
    unfold Job.Retryable at hretryable
    rw [hsplit] at ho horder hretryable
    rw [List.pairwise_append] at horder hretryable
    rcases List.mem_append.mp ho with ho | ho
    · exact horder.2.2 o ho _ List.mem_cons_self
    · rcases List.mem_cons.mp ho with rfl | ho
      · rfl
      · exact (List.pairwise_cons.mp hretryable.2.1).1 o ho rfl

end Retry

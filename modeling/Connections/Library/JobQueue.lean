import Mathlib.Data.List.Basic
import Mathlib.Data.List.Nodup
import Mathlib.Data.List.Perm.Basic
import Mathlib.Tactic.TypeStar

/-!
# A job queue with retained jobs

The queue keeps every job it still knows about in one list, newest first within each state,
and the ids in that list are pairwise distinct.  Adding an id that is already present, in any
state, changes nothing; finished jobs stay until newer ones push them out.
-/

namespace JobQueue

/-- Where a job stands. -/
inductive JobState
  | waiting
  | delayed
  | prioritized
  | paused
  | active
  | completed
  | failed
  deriving DecidableEq, Repr

/-- A job that a worker may still run or is running. -/
def JobState.live : JobState → Bool
  | .completed | .failed => false
  | _ => true

/-- A job that no worker has taken yet. -/
def JobState.notStarted : JobState → Bool
  | .waiting | .delayed | .prioritized | .paused => true
  | _ => false

theorem JobState.notStarted_live {st : JobState} (h : st.notStarted) : st.live := by
  cases st <;> simp_all [notStarted, live]

/-- A job: its id, what it carries, its state, and how often it has failed so far. -/
structure Job (ι δ : Type*) where
  id : ι
  data : δ
  state : JobState
  attemptsMade : ℕ
  deriving DecidableEq

/-- A queue holds at most one job for each id. -/
structure Queue (ι δ : Type*) where
  jobs : List (Job ι δ)
  nodup_ids : (jobs.map Job.id).Nodup

namespace Queue

variable {ι δ : Type*}

/-- The queue with no job. -/
def empty : Queue ι δ := ⟨[], List.nodup_nil⟩

/-- Two jobs of a queue with one id are the same job. -/
theorem eq_of_id_eq (q : Queue ι δ) {j k : Job ι δ} (hj : j ∈ q.jobs) (hk : k ∈ q.jobs)
    (h : j.id = k.id) : j = k :=
  List.inj_on_of_nodup_map q.nodup_ids hj hk h

/-- Keep the newest `n` jobs of state `st` and every job of another state. -/
def keepNewest (st : JobState) : ℕ → List (Job ι δ) → List (Job ι δ)
  | _, [] => []
  | n, j :: js =>
    if j.state = st then
      match n with
      | 0 => keepNewest st 0 js
      | n + 1 => j :: keepNewest st n js
    else j :: keepNewest st n js

theorem keepNewest_sublist (st : JobState) (n : ℕ) (js : List (Job ι δ)) :
    (keepNewest st n js).Sublist js := by
  induction js generalizing n with
  | nil => exact List.Sublist.refl _
  | cons j js ih =>
    unfold keepNewest
    split
    · cases n with
      | zero => exact (ih 0).cons j
      | succ n => exact (ih n).cons_cons j
    · exact (ih n).cons_cons j

/-- Only jobs of the trimmed state can disappear. -/
theorem mem_keepNewest_of_ne {st : JobState} {n : ℕ} {js : List (Job ι δ)} {j : Job ι δ}
    (hj : j ∈ js) (hst : j.state ≠ st) : j ∈ keepNewest st n js := by
  induction js generalizing n with
  | nil => cases hj
  | cons k js ih =>
    unfold keepNewest
    rcases List.mem_cons.mp hj with rfl | hj
    · simp [hst]
    · split
      · cases n with
        | zero => exact ih hj
        | succ n => exact List.mem_cons_of_mem _ (ih hj)
      · exact List.mem_cons_of_mem _ (ih hj)

section Operations

variable [DecidableEq ι]

/-- The job with a given id, in whatever state. -/
def lookup (q : Queue ι δ) (id : ι) : Option (Job ι δ) := q.jobs.find? (·.id = id)

theorem lookup_eq_some {q : Queue ι δ} {id : ι} {j : Job ι δ} :
    q.lookup id = some j ↔ j ∈ q.jobs ∧ j.id = id := by
  constructor
  · intro h
    exact ⟨List.mem_of_find?_eq_some h, by simpa using List.find?_some h⟩
  · rintro ⟨hj, rfl⟩
    cases h : q.lookup j.id with
    | none =>
      have := List.find?_eq_none.mp h j hj
      simp at this
    | some k =>
      have hk : k ∈ q.jobs := List.mem_of_find?_eq_some h
      have hid : k.id = j.id := by simpa using List.find?_some h
      rw [q.eq_of_id_eq hk hj hid]

theorem lookup_eq_none {q : Queue ι δ} {id : ι} :
    q.lookup id = none ↔ ∀ j ∈ q.jobs, j.id ≠ id := by
  simp [lookup, List.find?_eq_none]

/-- Put a job in front under a new state, in place of any job with its id. -/
def relist (q : Queue ι δ) (j : Job ι δ) : Queue ι δ where
  jobs := j :: q.jobs.filter (·.id ≠ j.id)
  nodup_ids := by
    rw [List.map_cons, List.nodup_cons]
    constructor
    · simp
    · exact q.nodup_ids.sublist (List.filter_sublist.map _)

@[simp] theorem mem_relist {q : Queue ι δ} {j k : Job ι δ} :
    k ∈ (q.relist j).jobs ↔ k = j ∨ k ∈ q.jobs ∧ k.id ≠ j.id := by
  simp [relist]

/-- Drop the older finished jobs of one state. -/
def trim (q : Queue ι δ) (st : JobState) (n : ℕ) : Queue ι δ where
  jobs := keepNewest st n q.jobs
  nodup_ids := q.nodup_ids.sublist ((keepNewest_sublist st n q.jobs).map _)

omit [DecidableEq ι] in
theorem mem_of_mem_trim {q : Queue ι δ} {st : JobState} {n : ℕ} {j : Job ι δ}
    (h : j ∈ (q.trim st n).jobs) : j ∈ q.jobs :=
  (keepNewest_sublist st n q.jobs).subset h

omit [DecidableEq ι] in
theorem mem_trim_of_ne {q : Queue ι δ} {st : JobState} {n : ℕ} {j : Job ι δ}
    (h : j ∈ q.jobs) (hst : j.state ≠ st) : j ∈ (q.trim st n).jobs :=
  mem_keepNewest_of_ne h hst

/-- Add a job; an id that is already present, in any state, leaves the queue as it is. -/
def add (q : Queue ι δ) (id : ι) (data : δ) (st : JobState) : Queue ι δ :=
  match q.lookup id with
  | some _ => q
  | none => q.relist ⟨id, data, st, 0⟩

theorem mem_add {q : Queue ι δ} {id : ι} {data : δ} {st : JobState} {j : Job ι δ} :
    j ∈ (q.add id data st).jobs ↔
      j ∈ q.jobs ∨ j = ⟨id, data, st, 0⟩ ∧ q.lookup id = none := by
  unfold add
  cases h : q.lookup id with
  | some k => simp
  | none =>
    have hfresh := lookup_eq_none.mp h
    simp only [mem_relist, and_true]
    constructor
    · rintro (rfl | ⟨hj, -⟩)
      · exact .inr rfl
      · exact .inl hj
    · rintro (hj | rfl)
      · exact .inr ⟨hj, hfresh j hj⟩
      · exact .inl rfl

/-- Move the job with a given id out of state `src`, when it is there. -/
def move (q : Queue ι δ) (id : ι) (src dst : JobState) : Option (Queue ι δ) :=
  (q.lookup id).bind fun j =>
    if j.state = src then some (q.relist { j with state := dst }) else none

theorem move_eq_some {q q' : Queue ι δ} {id : ι} {src dst : JobState} :
    q.move id src dst = some q' ↔
      ∃ j ∈ q.jobs, j.id = id ∧ j.state = src ∧ q' = q.relist { j with state := dst } := by
  constructor
  · intro h
    obtain ⟨j, hj, h⟩ := Option.bind_eq_some_iff.mp h
    obtain ⟨hmem, hid⟩ := lookup_eq_some.mp hj
    split at h
    · exact ⟨j, hmem, hid, ‹_›, (Option.some.inj h).symm⟩
    · cases h
  · rintro ⟨j, hmem, hid, hst, rfl⟩
    simp [move, lookup_eq_some.mpr ⟨hmem, hid⟩, hst]

/-- A job that ended well is kept among the newest `keep` completed ones. -/
def complete (q : Queue ι δ) (keep : ℕ) (id : ι) : Option (Queue ι δ) :=
  (q.move id .active .completed).map (·.trim .completed keep)

/-- A failed attempt waits for its next one while there is any left; the last one fails the
job, which is kept among the newest `keep` failed ones. -/
def failAttempt (q : Queue ι δ) (attempts keep : ℕ) (id : ι) : Option (Queue ι δ) :=
  (q.lookup id).bind fun j =>
    if j.state = .active then
      let k := { j with attemptsMade := j.attemptsMade + 1 }
      if j.attemptsMade + 1 < attempts then some (q.relist { k with state := .delayed })
      else some ((q.relist { k with state := .failed }).trim .failed keep)
    else none

/-- A completion puts an active job among the completed ones and drops the oldest of those. -/
theorem complete_eq_some {q q' : Queue ι δ} {keep : ℕ} {id : ι} :
    q.complete keep id = some q' ↔
      ∃ j ∈ q.jobs, j.id = id ∧ j.state = .active ∧
        q' = (q.relist { j with state := .completed }).trim .completed keep := by
  simp only [complete, Option.map_eq_some_iff, move_eq_some]
  constructor
  · rintro ⟨moved, ⟨j, hj, hid, hst, rfl⟩, rfl⟩
    exact ⟨j, hj, hid, hst, rfl⟩
  · rintro ⟨j, hj, hid, hst, rfl⟩
    exact ⟨_, ⟨j, hj, hid, hst, rfl⟩, rfl⟩

/-- A failed attempt delays an active job, or puts it among the failed ones. -/
theorem failAttempt_eq_some {q q' : Queue ι δ} {attempts keep : ℕ} {id : ι} :
    q.failAttempt attempts keep id = some q' ↔
      ∃ j ∈ q.jobs, j.id = id ∧ j.state = .active ∧
        (j.attemptsMade + 1 < attempts ∧
            q' = q.relist { j with state := .delayed, attemptsMade := j.attemptsMade + 1 } ∨
          ¬ j.attemptsMade + 1 < attempts ∧
            q' = (q.relist { j with state := .failed, attemptsMade := j.attemptsMade + 1 }).trim
              .failed keep) := by
  simp only [failAttempt, Option.bind_eq_some_iff, lookup_eq_some]
  constructor
  · rintro ⟨j, ⟨hj, hid⟩, h⟩
    split at h
    · rename_i hst
      split at h
      · rename_i hleft
        exact ⟨j, hj, hid, hst, .inl ⟨hleft, (Option.some.inj h).symm⟩⟩
      · rename_i hlast
        exact ⟨j, hj, hid, hst, .inr ⟨hlast, (Option.some.inj h).symm⟩⟩
    · cases h
  · rintro ⟨j, hj, hid, hst, ⟨hleft, rfl⟩ | ⟨hlast, rfl⟩⟩
    · exact ⟨j, ⟨hj, hid⟩, by simp [hst, hleft]⟩
    · exact ⟨j, ⟨hj, hid⟩, by simp [hst, hlast]⟩

/-- A relisted and trimmed queue keeps the other jobs that are not in the trimmed state. -/
theorem mem_trim_relist_of_ne {q : Queue ι δ} {j k : Job ι δ} {st : JobState} {keep : ℕ}
    (hk : k ∈ q.jobs) (hid : k.id ≠ j.id) (hst : k.state ≠ st) :
    k ∈ ((q.relist j).trim st keep).jobs :=
  mem_trim_of_ne (mem_relist.mpr (.inr ⟨hk, hid⟩)) hst

/-- A job of a relisted and trimmed queue was there before, or is the relisted one. -/
theorem eq_or_mem_of_mem_trim_relist {q : Queue ι δ} {j k : Job ι δ} {st : JobState} {keep : ℕ}
    (hk : k ∈ ((q.relist j).trim st keep).jobs) : k = j ∨ k ∈ q.jobs ∧ k.id ≠ j.id :=
  mem_relist.mp (mem_of_mem_trim hk)

end Operations

/-- The jobs in one state, newest first. -/
def ofState (q : Queue ι δ) (st : JobState) : List (Job ι δ) := q.jobs.filter (·.state = st)

theorem filter_keepNewest_self (st : JobState) (n : ℕ) (js : List (Job ι δ)) :
    (keepNewest st n js).filter (·.state = st) = (js.filter (·.state = st)).take n := by
  induction js generalizing n with
  | nil => simp [keepNewest]
  | cons j js ih =>
    unfold keepNewest
    split
    · rename_i hst
      cases n with
      | zero => simp [ih]
      | succ n => simp [hst, ih]
    · rename_i hst
      simp [hst, ih]

theorem filter_keepNewest_of_ne {st dst : JobState} (h : dst ≠ st) (n : ℕ) (js : List (Job ι δ)) :
    (keepNewest dst n js).filter (·.state = st) = js.filter (·.state = st) := by
  induction js generalizing n with
  | nil => simp [keepNewest]
  | cons j js ih =>
    unfold keepNewest
    split
    · rename_i hst
      cases n <;> simp [hst, h, ih]
    · simp only [List.filter_cons, ih]

/-- Trimming a state leaves its newest jobs. -/
theorem ofState_trim_self (q : Queue ι δ) (st : JobState) (n : ℕ) :
    (q.trim st n).ofState st = (q.ofState st).take n :=
  filter_keepNewest_self st n q.jobs

/-- Trimming a state leaves the jobs of another one. -/
theorem ofState_trim_of_ne (q : Queue ι δ) {st dst : JobState} (h : dst ≠ st) (n : ℕ) :
    (q.trim dst n).ofState st = q.ofState st :=
  filter_keepNewest_of_ne h n q.jobs

/-- What is dropped from a list moves nothing out of its front. -/
theorem mem_take_filter {α : Type*} {p : α → Bool} {a : α} {n : ℕ} {l : List α}
    (h : a ∈ l.take n) (ha : p a = true) : a ∈ (l.filter p).take n := by
  induction l generalizing n with
  | nil => simp at h
  | cons b l ih =>
    cases n with
    | zero => simp at h
    | succ n =>
      rcases List.mem_cons.mp h with rfl | h
      · simp [ha]
      · by_cases hb : p b = true
        · rw [List.filter_cons_of_pos hb]
          exact List.mem_cons_of_mem _ (ih h)
        · rw [List.filter_cons_of_neg hb]
          exact List.take_subset_take_left _ (Nat.le_succ n) (ih h)

/-- Another job that is put in front moves a job back by one place, when it is in its state. -/
theorem mem_take_ofState_relist [DecidableEq ι] {q : Queue ι δ} {j k : Job ι δ} {st : JobState}
    {n : ℕ} (h : j ∈ (q.ofState st).take n) (hid : j.id ≠ k.id) :
    j ∈ ((q.relist k).ofState st).take (if k.state = st then n + 1 else n) := by
  have hkept : j ∈ ((q.jobs.filter (·.id ≠ k.id)).filter (·.state = st)).take n := by
    rw [List.filter_filter, List.filter_congr fun i _ => Bool.and_comm _ _, ← List.filter_filter]
    exact mem_take_filter h (by simpa using hid)
  unfold ofState relist
  split
  · rename_i hst
    rw [List.filter_cons_of_pos (by simpa using hst)]
    exact List.mem_cons_of_mem _ hkept
  · rename_i hst
    rw [List.filter_cons_of_neg (by simpa using hst)]
    exact hkept

/-- A job that is added is none of another state. -/
theorem ofState_add_of_ne [DecidableEq ι] (q : Queue ι δ) {st dst : JobState} (h : dst ≠ st)
    (id : ι) (data : δ) : (q.add id data dst).ofState st = q.ofState st := by
  unfold add
  cases hlookup : q.lookup id with
  | some k => rfl
  | none =>
    have hfilter : q.jobs.filter (fun k => decide (k.id ≠ id)) = q.jobs :=
      List.filter_eq_self.mpr fun k hk => by simpa using lookup_eq_none.mp hlookup k hk
    simp only [relist, ofState, hfilter]
    rw [List.filter_cons_of_neg (by simpa using h)]

/-- A job added at the front moves no other job out of a tail of its state's list. -/
theorem mem_drop_ofState_add [DecidableEq ι] {q : Queue ι δ} {id : ι} {data : δ}
    {st dst : JobState} {n : ℕ} {j : Job ι δ} (h : j ∈ (q.ofState st).drop n) :
    j ∈ ((q.add id data dst).ofState st).drop n := by
  unfold add
  cases hlookup : q.lookup id with
  | some k => exact h
  | none =>
    have hfilter : q.jobs.filter (fun k => decide (k.id ≠ id)) = q.jobs :=
      List.filter_eq_self.mpr fun k hk => by simpa using lookup_eq_none.mp hlookup k hk
    simp only [relist, ofState, hfilter, List.filter_cons]
    split
    · cases n with
      | zero => exact List.mem_cons_of_mem _ h
      | succ n => exact List.drop_subset_drop_left _ (Nat.le_succ n) h
    · exact h

/-- One page of the jobs in several states: the same range of each state's own list. -/
def getJobs (q : Queue ι δ) (states : List JobState) (start size : ℕ) : List (Job ι δ) :=
  states.flatMap fun st => ((q.ofState st).drop start).take size

/-- One state's range of a page is no longer than the page. -/
theorem length_le_getJobs (q : Queue ι δ) {states : List JobState} {st : JobState}
    (hst : st ∈ states) (start size : ℕ) :
    (((q.ofState st).drop start).take size).length ≤ (q.getJobs states start size).length := by
  obtain ⟨before, after, rfl⟩ := List.append_of_mem hst
  simp only [getJobs, List.flatMap_append, List.flatMap_cons, List.length_append]
  omega

/-- A page without a job is short. -/
theorem getJobs_lt_of_le (q : Queue ι δ) (states : List JobState) {start size : ℕ}
    (hsize : 0 < size) (h : q.jobs.length ≤ start) :
    (q.getJobs states start size).length < size := by
  have hnil : q.getJobs states start size = [] := by
    refine List.flatMap_eq_nil_iff.mpr fun st _ => ?_
    have hlength : (q.ofState st).length ≤ start := Nat.le_trans (List.length_filter_le _ _) h
    rw [List.drop_eq_nil_of_le hlength, List.take_nil]
  rw [hnil]
  exact hsize

/-- Read the jobs in some states, page by page, up to a short page. -/
def readPages (q : Queue ι δ) (states : List JobState) (size : ℕ) (hsize : 0 < size) (start : ℕ) :
    List (Job ι δ) :=
  let page := q.getJobs states start size
  if page.length < size then page
  else page ++ readPages q states size hsize (start + size)
termination_by q.jobs.length - start
decreasing_by
  rename_i hlong
  have hbehind : start < q.jobs.length := by
    by_contra hle
    exact hlong (q.getJobs_lt_of_le states hsize (Nat.le_of_not_lt hle))
  omega

/-- The pages hold what lies behind the start of each state's list. -/
theorem readPages_perm (q : Queue ι δ) (states : List JobState) (size : ℕ) (hsize : 0 < size)
    (start : ℕ) : (q.readPages states size hsize start).Perm
      (states.flatMap fun st => (q.ofState st).drop start) := by
  fun_induction readPages q states size hsize start with
  | case1 start page hshort =>
    refine List.Perm.of_eq (List.flatMap_congr fun st hst => ?_)
    have hle := q.length_le_getJobs hst start size
    rw [List.take_of_length_le]
    rw [List.length_take] at hle
    have hpage : (q.getJobs states start size).length < size := hshort
    omega
  | case2 start page hlong ih =>
    refine (ih.append_left _).trans ((List.flatMap_append_perm _ _ _).trans ?_)
    refine List.Perm.of_eq (List.flatMap_congr fun st _ => ?_)
    rw [← List.drop_drop, List.take_append_drop]

/-- Read from the start, the pages hold each job in one of the states once. -/
theorem readPages_zero_perm (q : Queue ι δ) {states : List JobState} (hstates : states.Nodup)
    (size : ℕ) (hsize : 0 < size) :
    (q.readPages states size hsize 0).Perm (q.jobs.filter (·.state ∈ states)) := by
  refine (q.readPages_perm states size hsize 0).trans ?_
  simp only [List.drop_zero, ofState]
  induction states with
  | nil => simp
  | cons st states ih =>
    obtain ⟨hnew, hrest⟩ := List.nodup_cons.mp hstates
    rw [List.flatMap_cons]
    refine ((ih hrest).append_left _).trans ?_
    have hsplit := List.filter_append_perm (fun j : Job ι δ => decide (j.state = st))
      (q.jobs.filter (·.state ∈ st :: states))
    refine List.Perm.trans (List.Perm.of_eq ?_) hsplit
    rw [List.filter_filter, List.filter_filter]
    congr 1
    · refine List.filter_congr fun j _ => ?_
      by_cases hj : j.state = st <;> simp [hj]
    · refine List.filter_congr fun j _ => ?_
      by_cases hj : j.state = st
      · simp [hj, hnew]
      · simp [hj]

end Queue

end JobQueue

import Connections.Game.IngestionFleet

/-!
# What a step around the ingestions can do

One case for each way in which a step is accepted, with all it says about the state before and
after.  What a bulk of jobs and a step of a worker leave in the queue is said once.
-/

namespace Connections

open Calendar Clock JobQueue KeyedTable

/-! ### A puzzle that is inserted -/

/-- An insertion that stored something took a free date under the next id. -/
theorem insertPuzzle_eq_ok_some {puzzles puzzles' : Table CivilDate PuzzleColumns}
    {date : Option CivilDate} {formattedDate : String} {data : ConnectionsPuzzle} {id : ℕ}
    (h : insertPuzzle puzzles date formattedDate data = .ok (some (id, puzzles'))) :
    ∃ day columns, date = some day ∧ puzzleColumns formattedDate data = .ok columns ∧
      id = puzzles.nextId ∧ puzzles'.rows = ⟨id, day, columns⟩ :: puzzles.rows ∧
        ∀ row ∈ puzzles.rows, row.key ≠ day := by
  unfold insertPuzzle at h
  cases hcolumns : puzzleColumns formattedDate data with
  | error message =>
    rw [hcolumns] at h
    cases h
  | ok columns =>
    rw [hcolumns] at h
    cases date with
    | none => cases h
    | some day =>
      obtain ⟨table, htable, hpair⟩ := Option.map_eq_some_iff.mp (Except.ok.inj h)
      cases hpair
      obtain ⟨hrows, -, hfree⟩ := Table.insert_eq_some htable
      exact ⟨day, columns, rfl, rfl, rfl, hrows, fun row hrow => (hfree row hrow).2⟩

/-- An insertion that stored nothing found the date taken. -/
theorem insertPuzzle_eq_ok_none {puzzles : Table CivilDate PuzzleColumns}
    {date : Option CivilDate} {formattedDate : String} {data : ConnectionsPuzzle}
    (h : insertPuzzle puzzles date formattedDate data = .ok none) :
    ∃ day, date = some day ∧ ∃ row ∈ puzzles.rows, row.key = day := by
  unfold insertPuzzle at h
  cases hcolumns : puzzleColumns formattedDate data with
  | error message =>
    rw [hcolumns] at h
    cases h
  | ok columns =>
    rw [hcolumns] at h
    cases date with
    | none => cases h
    | some day =>
      have hrefused := Option.map_eq_none_iff.mp (Except.ok.inj h)
      refine ⟨day, rfl, by_contra fun hfree => ?_⟩
      push Not at hfree
      have hsome : (puzzles.insert puzzles.nextId day columns).isSome = true :=
        Table.insert_nextId_isSome hfree
      rw [hrefused] at hsome
      cases hsome

/-- Only a body that can be read brings a puzzle. -/
theorem response_of_puzzle {formattedDate : String} {attempt : ℕ} {response : FetchResponse}
    {data : ConnectionsPuzzle} (h : fetchNytPuzzle formattedDate attempt response = .puzzle data) :
    ∃ status, response = .response status (.ok data) := by
  cases response with
  | networkError message =>
    simp only [fetchNytPuzzle] at h
    split at h <;> cases h
  | response status body =>
    simp only [fetchNytPuzzle] at h
    split at h
    · cases h
    · split at h
      · cases body with
        | error message => cases h
        | ok read =>
          cases h
          exact ⟨status, rfl⟩
      · split at h
        · split at h <;> cases h
        · cases h

/-! ### The queue -/

/-- A job that is in a queue after a bulk was there before it, or carries what the bulk names under
its deterministic id. -/
theorem mem_addBulk {queue : Queue String RunStrategyJobData} {jobs : List RunStrategyJobData}
    {j : Job String RunStrategyJobData} (h : j ∈ (addBulk queue jobs).jobs) :
    j ∈ queue.jobs ∨ j.data ∈ jobs ∧ j.id = runStrategyJobId j.data.puzzleId j.data.strategyName
      j.data.model j.data.trialNumber := by
  induction jobs generalizing queue with
  | nil => exact .inl h
  | cons data jobs ih =>
    rw [addBulk, List.foldl_cons, ← addBulk] at h
    rcases ih h with hadded | ⟨hdata, hid⟩
    · rcases Queue.mem_add.mp hadded with hold | ⟨rfl, -⟩
      · exact .inl hold
      · exact .inr ⟨List.mem_cons_self, rfl⟩
    · exact .inr ⟨List.mem_cons_of_mem _ hdata, hid⟩

/-- A bulk keeps the jobs that were there. -/
theorem mem_addBulk_of_mem {queue : Queue String RunStrategyJobData}
    {jobs : List RunStrategyJobData} {j : Job String RunStrategyJobData} (h : j ∈ queue.jobs) :
    j ∈ (addBulk queue jobs).jobs := by
  induction jobs generalizing queue with
  | nil => exact h
  | cons data jobs ih => exact ih (Queue.mem_add.mpr (.inl h))

/-- Each job of a bulk is in the queue behind it, added now or earlier under its id. -/
theorem exists_mem_addBulk (queue : Queue String RunStrategyJobData)
    {jobs : List RunStrategyJobData} {data : RunStrategyJobData} (h : data ∈ jobs) :
    ∃ j ∈ (addBulk queue jobs).jobs, j.id = runStrategyJobId data.puzzleId data.strategyName
      data.model data.trialNumber := by
  induction jobs generalizing queue with
  | nil => cases h
  | cons first jobs ih =>
    rcases List.mem_cons.mp h with rfl | hrest
    · set id := runStrategyJobId data.puzzleId data.strategyName data.model data.trialNumber
      have hadded : ∃ j ∈ (queue.add id data .waiting).jobs, j.id = id := by
        cases hlookup : queue.lookup id with
        | some old =>
          obtain ⟨hold, hid⟩ := Queue.lookup_eq_some.mp hlookup
          exact ⟨old, Queue.mem_add.mpr (.inl hold), hid⟩
        | none => exact ⟨_, Queue.mem_add.mpr (.inr ⟨rfl, hlookup⟩), rfl⟩
      obtain ⟨j, hj, hid⟩ := hadded
      have hkept : j ∈ (addBulk (queue.add id data .waiting) jobs).jobs := mem_addBulk_of_mem hj
      exact ⟨j, hkept, hid⟩
    · exact ih _ hrest

/-- The workers bring no job into the queue and change nothing that a job carries. -/
theorem queueStep_origin {queue queue' : Queue String RunStrategyJobData} {event : QueueEvent}
    (h : queueStep queue event = some queue') {j : Job String RunStrategyJobData}
    (hj : j ∈ queue'.jobs) : ∃ i ∈ queue.jobs, i.id = j.id ∧ i.data = j.data := by
  have hrelist {i k : Job String RunStrategyJobData} (hi : i ∈ queue.jobs)
      (hj : j = k ∨ j ∈ queue.jobs ∧ j.id ≠ k.id) (hid : i.id = k.id) (hdata : i.data = k.data) :
      ∃ i ∈ queue.jobs, i.id = j.id ∧ i.data = j.data := by
    rcases hj with rfl | ⟨hold, -⟩
    · exact ⟨i, hi, hid, hdata⟩
    · exact ⟨j, hold, rfl, rfl⟩
  cases event with
  | pick jobId | promote jobId | stall jobId =>
    obtain ⟨i, hi, -, -, rfl⟩ := Queue.move_eq_some.mp h
    exact hrelist hi (Queue.mem_relist.mp hj) rfl rfl
  | complete jobId =>
    obtain ⟨i, hi, -, -, rfl⟩ := Queue.complete_eq_some.mp h
    exact hrelist hi (Queue.eq_or_mem_of_mem_trim_relist hj) rfl rfl
  | throws jobId =>
    obtain ⟨i, hi, -, -, ⟨-, rfl⟩ | ⟨-, rfl⟩⟩ := Queue.failAttempt_eq_some.mp h
    · exact hrelist hi (Queue.mem_relist.mp hj) rfl rfl
    · exact hrelist hi (Queue.eq_or_mem_of_mem_trim_relist hj) rfl rfl

/-! ### The step -/

namespace IngestionFleet

/-- The ways in which a step is accepted. -/
inductive StepCase (env : IngestionEnv) (w : IngestionFleet) :
    IngestionEvent → IngestionFleet → Prop
  | populate : StepCase env w .populate
      { w with calls := w.calls ++
        [⟨.forward (getLatestDate env.zone (w.puzzles.rows.map (·.key))), 0, [], .reading⟩] }
  | backfill (dates : List CivilDate) : StepCase env w (.backfill dates)
      { w with calls := w.calls ++ [⟨.dates dates, 0, [], (Itinerary.dates dates).state⟩] }
  | loseCache (formattedDate : String) : StepCase env w (.loseCache formattedDate)
      { w with cache := w.cache.filter fun file => file.1 ≠ formattedDate }
  | trigger (row : Row CivilDate PuzzleColumns) (strategyName : String) :
      row ∈ w.puzzles.rows → strategyName ∈ automaticStrategies →
      StepCase env w (.trigger row.key strategyName)
        { w with
          queue := addBulk w.queue
            (strategyJobs env.shuffleTrialCount row.id (dateText row.key) [strategyName]) }
  | work (event : QueueEvent) (queue : Queue String RunStrategyJobData) :
      queueStep w.queue event = some queue →
      StepCase env w (.work event) { w with queue := queue }
  | read (i : ℕ) (call : IngestionCall) (data : ConnectionsPuzzle) : w.calls[i]? = some call →
      call.state = .reading → w.cache.lookup (call.itinerary.formatted env.zone) = some data →
      StepCase env w (.call i .readCache) (w.setCall i { call with state := .inserting data })
  | ask (i : ℕ) (call : IngestionCall) (event : IngestionCallEvent) : w.calls[i]? = some call →
      call.state = .reading →
      StepCase env w (.call i event) (w.setCall i { call with state := .fetching 0 })
  | fetched (i : ℕ) (call : IngestionCall) (attempt : ℕ) (response : FetchResponse)
      (data : ConnectionsPuzzle) : w.calls[i]? = some call → call.state = .fetching attempt →
      fetchNytPuzzle (call.itinerary.formatted env.zone) attempt response = .puzzle data →
      StepCase env w (.call i (.respond response))
        (w.setCall i { call with state := .caching data })
  | again (i : ℕ) (call : IngestionCall) (attempt : ℕ) (response : FetchResponse) :
      w.calls[i]? = some call → call.state = .fetching attempt →
      fetchNytPuzzle (call.itinerary.formatted env.zone) attempt response = .again →
      StepCase env w (.call i (.respond response))
        (w.setCall i { call with state := .fetching (attempt + 1) })
  | noPuzzle (i : ℕ) (call : IngestionCall) (attempt : ℕ) (response : FetchResponse) :
      w.calls[i]? = some call → call.state = .fetching attempt →
      fetchNytPuzzle (call.itinerary.formatted env.zone) attempt response = .noPuzzle →
      StepCase env w (.call i (.respond response)) (w.setCall i (call.noPuzzle env.zone))
  | cached (i : ℕ) (call : IngestionCall) (data : ConnectionsPuzzle) (written : Bool) :
      w.calls[i]? = some call → call.state = .caching data →
      StepCase env w (.call i (.writeCache written))
        { w.setCall i { call with state := .inserting data } with
          cache := if written then (call.itinerary.formatted env.zone, data) :: w.cache
            else w.cache }
  | inserted (i : ℕ) (call : IngestionCall) (data : ConnectionsPuzzle) (day : CivilDate)
      (columns : PuzzleColumns) (puzzles : Table CivilDate PuzzleColumns) :
      w.calls[i]? = some call → call.state = .inserting data →
      call.itinerary.asked env.zone = some day →
      puzzleColumns (call.itinerary.formatted env.zone) data = .ok columns →
      puzzles.rows = ⟨w.puzzles.nextId, day, columns⟩ :: w.puzzles.rows →
      (∀ row ∈ w.puzzles.rows, row.key ≠ day) →
      StepCase env w (.call i .insert)
        { w.setCall i { call with state := .dispatching w.puzzles.nextId } with puzzles := puzzles }
  | existed (i : ℕ) (call : IngestionCall) (data : ConnectionsPuzzle) (day : CivilDate) :
      w.calls[i]? = some call → call.state = .inserting data →
      call.itinerary.asked env.zone = some day → (∃ row ∈ w.puzzles.rows, row.key = day) →
      StepCase env w (.call i .insert) (w.setCall i (call.existed env.zone))
  | dispatched (i : ℕ) (call : IngestionCall) (puzzleId : ℕ) : w.calls[i]? = some call →
      call.state = .dispatching puzzleId →
      StepCase env w (.call i .dispatch)
        { w.setCall i (call.dispatched env.zone) with
          queue := addBulk w.queue
            (automaticJobs env puzzleId (call.itinerary.formatted env.zone)) }
  | dispatchFailed (i : ℕ) (call : IngestionCall) (puzzleId : ℕ) (taken : Bool) :
      w.calls[i]? = some call → call.state = .dispatching puzzleId →
      StepCase env w (.call i (.dispatchFails taken))
        { w.setCall i (call.dispatched env.zone) with
          queue := if taken then
            addBulk w.queue (automaticJobs env puzzleId (call.itinerary.formatted env.zone))
            else w.queue }
  | threw (i : ℕ) (call : IngestionCall) (event : IngestionCallEvent) (message : String) :
      w.calls[i]? = some call → (∀ puzzleId, call.state ≠ .dispatching puzzleId) →
      StepCase env w (.call i event) (w.setCall i { call with state := .threw message })
  | crashed (i : ℕ) (call : IngestionCall) : w.calls[i]? = some call →
      StepCase env w (.call i .crash) (w.setCall i { call with state := .crashed })

variable {env : IngestionEnv}

/-- A response is a puzzle, none, a reason to ask again, or the end of the call. -/
theorem respond_cases {w w' : IngestionFleet} {i : ℕ} {call : IngestionCall} {attempt : ℕ}
    {response : FetchResponse} (hcall : w.calls[i]? = some call)
    (hstate : call.state = .fetching attempt)
    (h : w.callStep env i call (.fetching attempt) (.respond response) = some w') :
    StepCase env w (.call i (.respond response)) w' := by
  cases hfetch : fetchNytPuzzle (call.itinerary.formatted env.zone) attempt response with
  | noPuzzle =>
    simp only [callStep, hfetch] at h
    cases h
    exact .noPuzzle i call attempt response hcall hstate hfetch
  | puzzle data =>
    simp only [callStep, hfetch] at h
    cases h
    exact .fetched i call attempt response data hcall hstate hfetch
  | again =>
    simp only [callStep, hfetch] at h
    cases h
    exact .again i call attempt response hcall hstate hfetch
  | throws message =>
    simp only [callStep, hfetch] at h
    cases h
    exact .threw i call _ message hcall (by simp [hstate])

/-- An insert stores the puzzle, finds its day stored, or throws. -/
theorem insert_cases {w w' : IngestionFleet} {i : ℕ} {call : IngestionCall}
    {data : ConnectionsPuzzle} (hcall : w.calls[i]? = some call)
    (hstate : call.state = .inserting data)
    (h : w.callStep env i call (.inserting data) .insert = some w') :
    StepCase env w (.call i .insert) w' := by
  cases hinsert : insertPuzzle w.puzzles (call.itinerary.asked env.zone)
      (call.itinerary.formatted env.zone) data with
  | error message =>
    simp only [callStep, hinsert] at h
    cases h
    exact .threw i call _ message hcall (by simp [hstate])
  | ok result =>
    cases result with
    | none =>
      simp only [callStep, hinsert] at h
      cases h
      obtain ⟨day, hday, hrow⟩ := insertPuzzle_eq_ok_none hinsert
      exact .existed i call data day hcall hstate hday hrow
    | some stored =>
      obtain ⟨id, puzzles⟩ := stored
      simp only [callStep, hinsert] at h
      cases h
      obtain ⟨day, columns, hday, hcolumns, rfl, hrows, hfree⟩ :=
        insertPuzzle_eq_ok_some hinsert
      exact .inserted i call data day columns puzzles hcall hstate hday hcolumns hrows hfree

/-- A step of a call is one of the cases. -/
theorem callStep_cases {w w' : IngestionFleet} {i : ℕ} {call : IngestionCall}
    {event : IngestionCallEvent} (hcall : w.calls[i]? = some call)
    (h : w.callStep env i call call.state event = some w') : StepCase env w (.call i event) w' := by
  generalize hstate : call.state = state at h
  cases state with
  | reading =>
    cases event with
    | readCache =>
      cases hlookup : w.cache.lookup (call.itinerary.formatted env.zone) with
      | some data =>
        simp only [callStep, hlookup] at h
        cases h
        exact .read i call data hcall hstate hlookup
      | none =>
        simp only [callStep, hlookup] at h
        cases h
        exact .ask i call .readCache hcall hstate
    | cacheUnreadable =>
      cases h
      exact .ask i call .cacheUnreadable hcall hstate
    | crash =>
      cases h
      exact .crashed i call hcall
    | _ => cases h
  | fetching attempt =>
    cases event with
    | respond response =>
      exact respond_cases hcall hstate h
    | crash =>
      cases h
      exact .crashed i call hcall
    | _ => cases h
  | caching data =>
    cases event with
    | writeCache written =>
      cases h
      exact .cached i call data written hcall hstate
    | crash =>
      cases h
      exact .crashed i call hcall
    | _ => cases h
  | inserting data =>
    cases event with
    | insert =>
      exact insert_cases hcall hstate h
    | insertFails message =>
      cases h
      exact .threw i call _ message hcall (by simp [hstate])
    | crash =>
      cases h
      exact .crashed i call hcall
    | _ => cases h
  | dispatching puzzleId =>
    cases event with
    | dispatch =>
      cases h
      exact .dispatched i call puzzleId hcall hstate
    | dispatchFails taken =>
      cases h
      exact .dispatchFailed i call puzzleId taken hcall hstate
    | crash =>
      cases h
      exact .crashed i call hcall
    | _ => cases h
  | returned | threw _ | crashed => cases event <;> cases h

/-- Every accepted step is one of the cases. -/
theorem step_cases {w w' : IngestionFleet} {e : IngestionEvent} (h : step env w e = some w') :
    StepCase env w e w' := by
  cases e with
  | populate =>
    cases h
    exact .populate
  | backfill dates =>
    cases h
    exact .backfill dates
  | loseCache formattedDate =>
    cases h
    exact .loseCache formattedDate
  | trigger date strategyName =>
    simp only [step] at h
    split at h
    · rename_i hautomatic
      obtain ⟨row, hrow, rfl⟩ := Option.map_eq_some_iff.mp h
      obtain ⟨hmem, rfl⟩ := Table.lookup_eq_some.mp hrow
      exact .trigger row strategyName hmem hautomatic
    · cases h
  | work event =>
    obtain ⟨queue, hqueue, rfl⟩ := Option.map_eq_some_iff.mp h
    exact .work event queue hqueue
  | call i event =>
    obtain ⟨call, hcall, hstep⟩ := Option.bind_eq_some_iff.mp h
    exact callStep_cases hcall hstep

end IngestionFleet

end Connections

import Connections.Game.IngestionCases

/-!
# What ingestions side by side leave behind

However the ingestions are interleaved, and wherever they crash or fail, a stored puzzle is what was
published for its own date, and the queue holds runs of stored puzzles only.
-/

namespace Connections

open Calendar Clock JobQueue KeyedTable

/-! ### Days and their texts -/

/-- The text of the day that is asked for. -/
theorem Itinerary.formatted_of_asked {zone : TimeZone} {itinerary : Itinerary} {day : CivilDate}
    (h : itinerary.asked zone = some day) : itinerary.formatted zone = dateText day := by
  cases itinerary with
  | forward latestDate =>
    obtain ⟨time, htime, rfl⟩ := Option.map_eq_some_iff.mp h
    rw [Itinerary.formatted, htime, formatDate]
  | dates rest =>
    rw [Itinerary.formatted, show rest.head? = some day from h]
    rfl

/-- Only the day that is asked for has the text. -/
theorem Itinerary.asked_of_formatted {zone : TimeZone} {itinerary : Itinerary} {day : CivilDate}
    (h : itinerary.formatted zone = dateText day) : itinerary.asked zone = some day := by
  cases itinerary with
  | forward latestDate =>
    rw [Itinerary.formatted] at h
    rw [Itinerary.asked]
    cases hnext : addDays zone latestDate 1 with
    | none =>
      rw [hnext] at h
      exact absurd h.symm (dateText_ne_invalid day)
    | some time =>
      rw [hnext] at h
      exact congrArg some (dateText_injective h)
  | dates rest =>
    cases rest with
    | nil =>
      obtain ⟨month, number, -, -, -, -, htext⟩ := toList_dateText day
      have hempty : (dateText day).toList = [] := by rw [← h]; rfl
      rw [htext] at hempty
      simp at hempty
    | cons first rest => exact congrArg some (dateText_injective h)

/-! ### Where a call goes on -/

section Next

variable (zone : TimeZone) (call : IngestionCall)

theorem IngestionCall.next_state :
    (call.next zone).state = .reading ∨ (call.next zone).state = .returned := by
  unfold IngestionCall.next Itinerary.state
  dsimp only
  split
  · exact .inr rfl
  · exact .inl rfl

theorem IngestionCall.noPuzzle_state :
    (call.noPuzzle zone).state = .reading ∨ (call.noPuzzle zone).state = .returned := by
  unfold IngestionCall.noPuzzle
  split
  · exact .inr rfl
  · exact IngestionCall.next_state zone _

theorem IngestionCall.existed_state :
    (call.existed zone).state = .reading ∨ (call.existed zone).state = .returned := by
  unfold IngestionCall.existed
  split <;> exact IngestionCall.next_state zone _

theorem IngestionCall.dispatched_state :
    (call.dispatched zone).state = .reading ∨ (call.dispatched zone).state = .returned :=
  IngestionCall.next_state zone _

theorem Itinerary.state_dates (dates : List CivilDate) :
    (Itinerary.dates dates).state = .reading ∨ (Itinerary.dates dates).state = .returned := by
  cases dates with
  | nil => exact .inr rfl
  | cons day dates => exact .inl rfl

end Next

/-! ### A stored puzzle is what was published -/

/-- The puzzle that a call has loaded and not stored yet. -/
def IngestionState.data : IngestionState → Option ConnectionsPuzzle
  | .caching data | .inserting data => some data
  | _ => none

/-- The id under which a call has stored a puzzle whose runs it has not queued yet. -/
def IngestionState.puzzleId : IngestionState → Option ℕ
  | .dispatching puzzleId => some puzzleId
  | _ => none

namespace IngestionFleet

/-- The puzzle that an answer brings, with the day it was asked for. -/
def answered (env : IngestionEnv) (w : IngestionFleet) :
    IngestionEvent → Option (CivilDate × ConnectionsPuzzle)
  | .call i (.respond (.response _ (.ok data))) =>
    ((w.calls[i]?).bind (·.itinerary.asked env.zone)).map fun day => (day, data)
  | _ => none

/-- Only what is published for a day is answered for it. -/
def answersPublished (env : IngestionEnv) (published : CivilDate → ConnectionsPuzzle → Prop)
    (w : IngestionFleet) (e : IngestionEvent) : Prop :=
  ∀ answer ∈ answered env w e, published answer.1 answer.2

instance (env : IngestionEnv) (published : CivilDate → ConnectionsPuzzle → Prop)
    [∀ day data, Decidable (published day data)] (w : IngestionFleet) (e : IngestionEvent) :
    Decidable (answersPublished env published w e) :=
  inferInstanceAs (Decidable (∀ answer ∈ answered env w e, published answer.1 answer.2))

variable {env : IngestionEnv} {published : CivilDate → ConnectionsPuzzle → Prop}

/-- What a call holds was published for the day it asks for, and what it has stored is stored under
that day. -/
structure Holds (env : IngestionEnv) (published : CivilDate → ConnectionsPuzzle → Prop)
    (rows : List (Row CivilDate PuzzleColumns)) (call : IngestionCall) : Prop where
  data : ∀ data ∈ call.state.data, ∀ day ∈ call.itinerary.asked env.zone, published day data
  stored : ∀ puzzleId ∈ call.state.puzzleId, ∃ row ∈ rows, row.id = puzzleId ∧
    call.itinerary.asked env.zone = some row.key

/-- A call that has nothing in hand holds nothing wrong. -/
theorem Holds.of_idle {rows : List (Row CivilDate PuzzleColumns)} {call : IngestionCall}
    (hdata : call.state.data = none) (hid : call.state.puzzleId = none) :
    Holds env published rows call := by
  constructor
  · intro data hhas
    rw [hdata] at hhas
    cases hhas
  · intro puzzleId hhas
    rw [hid] at hhas
    cases hhas

theorem Holds.of_next {rows : List (Row CivilDate PuzzleColumns)} {call : IngestionCall}
    (h : call.state = .reading ∨ call.state = .returned) : Holds env published rows call := by
  rcases h with h | h <;> exact .of_idle (by rw [h]; rfl) (by rw [h]; rfl)

/-- More rows do no harm. -/
theorem Holds.mono {rows rows' : List (Row CivilDate PuzzleColumns)} {call : IngestionCall}
    (h : Holds env published rows call) (hrows : ∀ row ∈ rows, row ∈ rows') :
    Holds env published rows' call :=
  ⟨h.data, fun puzzleId hid =>
    let ⟨row, hrow, hsame⟩ := h.stored puzzleId hid
    ⟨row, hrows row hrow, hsame⟩⟩

/-- A job is one of an automatic strategy, for a stored puzzle under its own date. -/
def ForStored (shuffleTrialCount : ℕ) (rows : List (Row CivilDate PuzzleColumns))
    (j : Job String RunStrategyJobData) : Prop :=
  ∃ row ∈ rows, ∃ strategyName ∈ automaticStrategies,
    ∃ trialNumber ∈ strategyTrialNumbers shuffleTrialCount strategyName,
      j.data = strategyJobData row.id (dateText row.key) strategyName trialNumber ∧
        j.id = runStrategyJobId row.id strategyName none trialNumber

/-- A bulk for a stored puzzle brings such jobs. -/
theorem forStored_of_addBulk {shuffleTrialCount : ℕ} {rows : List (Row CivilDate PuzzleColumns)}
    {queue : Queue String RunStrategyJobData} {row : Row CivilDate PuzzleColumns}
    {strategies : List String} (hrow : row ∈ rows)
    (hstrategies : ∀ strategyName ∈ strategies, strategyName ∈ automaticStrategies)
    (h : ∀ j ∈ queue.jobs, ForStored shuffleTrialCount rows j) :
    ∀ j ∈ (addBulk queue
      (strategyJobs shuffleTrialCount row.id (dateText row.key) strategies)).jobs,
      ForStored shuffleTrialCount rows j := by
  intro j hj
  rcases mem_addBulk hj with hold | ⟨hdata, hid⟩
  · exact h j hold
  · obtain ⟨strategyName, hstrategy, htrials⟩ := List.mem_flatMap.mp hdata
    obtain ⟨trialNumber, htrial, hsame⟩ := List.mem_map.mp htrials
    refine ⟨row, hrow, strategyName, hstrategies strategyName hstrategy, trialNumber, htrial,
      hsame.symm, ?_⟩
    rw [hid, ← hsame]
    rfl

/-- Everything stored, cached, in hand or queued is what was published for its day. -/
structure Genuine (env : IngestionEnv) (published : CivilDate → ConnectionsPuzzle → Prop)
    (w : IngestionFleet) : Prop where
  rows : ∀ row ∈ w.puzzles.rows, ∃ data, published row.key data ∧
    puzzleColumns (dateText row.key) data = .ok row.value
  cache : ∀ file ∈ w.cache, ∀ day, file.1 = dateText day → published day file.2
  calls : ∀ call ∈ w.calls, Holds env published w.puzzles.rows call
  jobs : ∀ j ∈ w.queue.jobs, ForStored env.shuffleTrialCount w.puzzles.rows j

theorem Genuine.fresh : Genuine env published fresh :=
  ⟨by simp [IngestionFleet.fresh, Table.empty], by simp [IngestionFleet.fresh],
    by simp [IngestionFleet.fresh], by simp [IngestionFleet.fresh, Queue.empty]⟩

/-- A call replaced by one that holds nothing wrong. -/
theorem Genuine.setCall {w : IngestionFleet} (h : Genuine env published w) (i : ℕ)
    {next : IngestionCall} (hnext : Holds env published w.puzzles.rows next) :
    Genuine env published (w.setCall i next) :=
  ⟨h.rows, h.cache, Run.forall_mem_set h.calls hnext, h.jobs⟩

/-- A call more, with nothing in hand. -/
theorem Genuine.addCall {w : IngestionFleet} (h : Genuine env published w) {call : IngestionCall}
    (hcall : call.state = .reading ∨ call.state = .returned) :
    Genuine env published { w with calls := w.calls ++ [call] } :=
  ⟨h.rows, h.cache, Run.forall_mem_concat h.calls (.of_next hcall), h.jobs⟩

/-- The runs of a call's puzzle are queued, or not. -/
theorem Genuine.dispatch {w : IngestionFleet} (h : Genuine env published w) {i : ℕ}
    {call : IngestionCall} {puzzleId : ℕ} (hcall : w.calls[i]? = some call)
    (hstate : call.state = .dispatching puzzleId) :
    Genuine env published { w.setCall i (call.dispatched env.zone) with
      queue := addBulk w.queue
        (automaticJobs env puzzleId (call.itinerary.formatted env.zone)) } := by
  have hset := h.setCall i (.of_next (call.dispatched_state env.zone))
  obtain ⟨row, hrow, rfl, hasked⟩ := (h.calls call (List.mem_of_getElem? hcall)).stored puzzleId
    (by rw [hstate]; rfl)
  rw [Itinerary.formatted_of_asked hasked]
  exact ⟨hset.rows, hset.cache, hset.calls,
    forStored_of_addBulk hrow (fun _ hstrategy => hstrategy) h.jobs⟩

/-- Every step keeps to what was published. -/
theorem Genuine.step {w w' : IngestionFleet} {e : IngestionEvent} (h : Genuine env published w)
    (hok : answersPublished env published w e) (hstep : step env w e = some w') :
    Genuine env published w' := by
  cases step_cases hstep with
  | populate => exact h.addCall (.inl rfl)
  | backfill dates => exact h.addCall (Itinerary.state_dates dates)
  | loseCache formattedDate =>
    exact ⟨h.rows, fun file hfile => h.cache file (List.mem_of_mem_filter hfile), h.calls, h.jobs⟩
  | trigger row strategyName hrow hautomatic =>
    have hstrategies : ∀ name ∈ [strategyName], name ∈ automaticStrategies := by simpa
    exact ⟨h.rows, h.cache, h.calls, forStored_of_addBulk hrow hstrategies h.jobs⟩
  | work event queue hqueue =>
    refine ⟨h.rows, h.cache, h.calls, fun j hj => ?_⟩
    obtain ⟨k, hk, hid, hdata⟩ := queueStep_origin hqueue hj
    unfold ForStored
    rw [← hid, ← hdata]
    exact h.jobs k hk
  | read i call data hcall hstate hlookup =>
    refine h.setCall i ⟨fun loaded hloaded day hday => ?_, by rintro puzzleId ⟨⟩⟩
    cases hloaded
    have hfile : (call.itinerary.formatted env.zone, data) ∈ w.cache := by
      obtain ⟨newer, older, hcache, -⟩ := List.lookup_eq_some_iff.mp hlookup
      rw [hcache]
      exact List.mem_append_right _ List.mem_cons_self
    exact h.cache _ hfile day (Itinerary.formatted_of_asked hday)
  | ask i call event hcall hstate => exact h.setCall i (.of_idle rfl rfl)
  | fetched i call attempt response data hcall hstate hfetch =>
    refine h.setCall i ⟨fun loaded hloaded day hday => ?_, by rintro puzzleId ⟨⟩⟩
    cases hloaded
    obtain ⟨status, rfl⟩ := response_of_puzzle hfetch
    refine hok (day, data) ?_
    rw [answered, hcall, Option.bind_some, show call.itinerary.asked env.zone = some day from hday]
    rfl
  | again i call attempt response hcall hstate hfetch => exact h.setCall i (.of_idle rfl rfl)
  | noPuzzle i call attempt response hcall hstate hfetch =>
    exact h.setCall i (.of_next (call.noPuzzle_state env.zone))
  | cached i call data written hcall hstate =>
    have hholds := h.calls call (List.mem_of_getElem? hcall)
    have hset : Genuine env published (w.setCall i { call with state := .inserting data }) := by
      refine h.setCall i ⟨fun loaded hloaded => ?_, by rintro puzzleId ⟨⟩⟩
      cases hloaded
      exact hholds.data data (by rw [hstate]; rfl)
    refine ⟨hset.rows, fun file hfile day hday => ?_, hset.calls, hset.jobs⟩
    split at hfile
    · rcases List.mem_cons.mp hfile with rfl | hold
      · exact hholds.data data (by rw [hstate]; rfl) day (Itinerary.asked_of_formatted hday)
      · exact h.cache file hold day hday
    · exact h.cache file hfile day hday
  | inserted i call data day columns puzzles hcall hstate hday hcolumns hrows hfree =>
    have hholds := h.calls call (List.mem_of_getElem? hcall)
    have hkept : ∀ row ∈ w.puzzles.rows, row ∈ puzzles.rows := by
      intro row hrow
      rw [hrows]
      exact List.mem_cons_of_mem _ hrow
    refine ⟨fun row hrow => ?_, h.cache, ?_, fun j hj => ?_⟩
    · rw [hrows] at hrow
      rcases List.mem_cons.mp hrow with rfl | hold
      · refine ⟨data, hholds.data data (by rw [hstate]; rfl) day hday, ?_⟩
        rw [← Itinerary.formatted_of_asked hday]
        exact hcolumns
      · exact h.rows row hold
    · refine Run.forall_mem_set (fun k hk => (h.calls k hk).mono hkept)
        ⟨by rintro data ⟨⟩, fun puzzleId hid => ?_⟩
      cases hid
      exact ⟨_, by rw [hrows]; exact List.mem_cons_self, rfl, hday⟩
    · obtain ⟨row, hrow, hjob⟩ := h.jobs j hj
      exact ⟨row, hkept row hrow, hjob⟩
  | existed i call data day hcall hstate hday hrow =>
    exact h.setCall i (.of_next (call.existed_state env.zone))
  | dispatched i call puzzleId hcall hstate => exact h.dispatch hcall hstate
  | dispatchFailed i call puzzleId taken hcall hstate =>
    cases taken with
    | true => exact h.dispatch hcall hstate
    | false => exact h.setCall i (.of_next (call.dispatched_state env.zone))
  | threw i call event message hcall hstate => exact h.setCall i (.of_idle rfl rfl)
  | crashed i call hcall => exact h.setCall i (.of_idle rfl rfl)

/-- However ingestions of any kind are interleaved, and wherever they fail, each stored puzzle has
all the groups of a puzzle that was published for its own date, and every job of the queue runs an
automatic strategy on a stored puzzle under that puzzle's date. -/
theorem stored_puzzles_are_published {w : IngestionFleet}
    (h : Run.Reaches (step env) (answersPublished env published) fresh w) :
    (∀ row ∈ w.puzzles.rows, ∃ data, published row.key data ∧
      puzzleColumns (dateText row.key) data = .ok row.value) ∧
    ∀ j ∈ w.queue.jobs, ForStored env.shuffleTrialCount w.puzzles.rows j := by
  have hgenuine : Genuine env published w :=
    h.invariant .fresh fun _ _ _ hinv hok hstep => hinv.step hok hstep
  exact ⟨hgenuine.rows, hgenuine.jobs⟩

/-! ### Two ingestions of one day -/

/-- A host in Cairo, with one trial of each shuffling strategy. -/
def cairoEnv : IngestionEnv := ⟨cairo, 1⟩

/-- A puzzle with one category, one of whose cards is an image. -/
def beesPuzzle : ConnectionsPuzzle :=
  ⟨[⟨"INSECTS", [.text "ANT" 0, .text "BEE" 1, .text "FLY" 2, .image "wasp.png" "WASP" 3]⟩]⟩

/-- A call fetches a puzzle with its second request. -/
def fetches (i : ℕ) : List IngestionEvent :=
  [.call i (.respond (.networkError "reset")),
    .call i (.respond (.response 200 (.ok beesPuzzle))), .call i (.writeCache true)]

/-- Two ingestions ask for the first day; the one that stores it crashes, and the other one goes on
to the second day. -/
def twoIngestions : List IngestionEvent :=
  [.populate, .populate, .call 0 .readCache, .call 1 .readCache] ++ fetches 0 ++ fetches 1 ++
    [.call 0 .insert, .call 1 .insert, .call 0 .crash, .call 1 .readCache] ++ fetches 1 ++
    [.call 1 .insert, .call 1 .dispatch]

/-- The two puzzles that are stored then are what was published. -/
theorem two_ingestions_store_what_is_published :
    ∃ w, Run.Reaches (step cairoEnv) (answersPublished cairoEnv fun _ data => data = beesPuzzle)
        fresh w ∧
      w.puzzles.rows.map (·.id) = [1, 0] ∧ w.queue.jobs.length = 6 ∧
      (∀ row ∈ w.puzzles.rows, ∃ data, data = beesPuzzle ∧
        puzzleColumns (dateText row.key) data = .ok row.value) ∧
      ∀ j ∈ w.queue.jobs, ForStored 1 w.puzzles.rows j := by
  obtain ⟨w, hrun, hend⟩ := Run.exists_reaches (step cairoEnv)
    (answersPublished cairoEnv fun _ data => data = beesPuzzle) fresh twoIngestions
    (fun w => w.puzzles.rows.map (·.id) = [1, 0] ∧ w.queue.jobs.length = 6) (by decide +kernel)
  obtain ⟨hrows, hjobs⟩ := of_decide_eq_true hend
  obtain ⟨hstored, hqueued⟩ := stored_puzzles_are_published hrun
  exact ⟨w, hrun, hrows, hjobs, hstored, hqueued⟩

end IngestionFleet

end Connections

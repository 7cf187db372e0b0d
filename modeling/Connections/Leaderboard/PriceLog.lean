import Connections.Leaderboard.PriceRefresh

/-!
# The price log

The price table keeps changes only, written by refreshes that do not wait for one another.  A run's
cost is settled once its start is in the past, and the price in effect at a time is the rate that
was last found stored or committed by then.
-/

namespace Connections.Leaderboard

/-! ### What a step can do -/

/-- When a refresh in a transaction began it. -/
def RefreshState.createdAt : RefreshState → Option ℤ
  | .opened _ _ createdAt | .inserted _ _ createdAt _ => some createdAt
  | _ => none

/-- The id that a refresh has taken and not committed. -/
def RefreshState.takenId : RefreshState → Option ℕ
  | .inserted _ _ _ id => some id
  | _ => none

/-- The model that a refresh in a transaction prices. -/
def RefreshState.model : RefreshState → Option CatalogModel
  | .opened model _ _ | .inserted model _ _ _ => some model
  | _ => none

theorem RefreshState.takenId_of_idle {state : RefreshState} (h : state.createdAt = none) :
    state.takenId = none := by
  cases state <;> first | rfl | cases h

/-- Between two models a refresh is in no transaction. -/
theorem nextListed_idle (listing : List OpenRouterModel) (summary : RefreshSummary)
    (models : List CatalogModel) : (nextListed listing summary models).state.createdAt = none := by
  induction models generalizing summary with
  | nil => rfl
  | cons model models ih =>
    unfold nextListed
    split
    · exact ih _
    · rfl

/-- A listed rate of a model that the table has, and since when it is known to have it. -/
structure Listed where
  modelId : ℕ
  rate : ModelRate
  time : ℤ

/-- The row says what was listed. -/
def ModelPrice.listed (price : ModelPrice) : Listed :=
  ⟨price.supportedModelId, price.rate, price.createdAt⟩

namespace PriceFleet

variable {catalog : Catalog}

/-- The listed rate that a call's step finds stored or commits: with the time of the comparison, or
of the row.  A rate whose refresh fails before its commit is not noted. -/
def listedBy (w : PriceFleet) : RefreshState → RefreshCallEvent → Option Listed
  | .comparing model listed, .compare =>
    if isCurrent (w.prices.current model.model.id) listed.rate then
      some ⟨model.model.id, listed.rate, w.now⟩
    else none
  | .inserted model listed createdAt id, .commit => some (newPrice model listed createdAt id).listed
  | _, _ => none

/-- A record of these rates. -/
def noteListed (w : PriceFleet) (e : PriceEvent) (_ : PriceFleet) : Option Listed :=
  match e with
  | .call i event => (w.calls[i]?).bind fun call => w.listedBy call.state event
  | _ => none

/-- What a step can do. -/
inductive StepCase (catalog : Catalog) (w : PriceFleet) : PriceEvent → PriceFleet → Prop
  | tick (microseconds : ℕ) : StepCase catalog w (.tick microseconds)
      { w with now := w.now + microseconds }
  | refresh (models : List CatalogModel) : StepCase catalog w (.refresh models)
      { w with calls := w.calls ++ [⟨models, [], ⟨0, 0, 0⟩, .listing⟩] }
  | idle (i : ℕ) (event : RefreshCallEvent) (next : RefreshCall) : next.state.createdAt = none →
      noteListed w (.call i event) (w.setCall i next) = none →
      StepCase catalog w (.call i event) (w.setCall i next)
  | unchanged (i : ℕ) (call : RefreshCall) (model : CatalogModel) (listed : OpenRouterModel) :
      w.calls[i]? = some call → call.state = .comparing model listed →
      isCurrent (w.prices.current model.model.id) listed.rate = true →
      StepCase catalog w (.call i .compare) (w.setCall i call.updated)
  | began (i : ℕ) (call : RefreshCall) (model : CatalogModel) (listed : OpenRouterModel) :
      w.calls[i]? = some call → call.state = .inserting model listed →
      StepCase catalog w (.call i .beginInsert)
        (w.setCall i { call with state := .opened model listed w.now })
  | took (i : ℕ) (call : RefreshCall) (model : CatalogModel) (listed : OpenRouterModel)
      (createdAt : ℤ) : w.calls[i]? = some call → call.state = .opened model listed createdAt →
      StepCase catalog w (.call i .insert)
        { w.setCall i { call with state := .inserted model listed createdAt w.prices.nextId } with
          prices := w.prices.allocate }
  | committed (i : ℕ) (call : RefreshCall) (model : CatalogModel) (listed : OpenRouterModel)
      (createdAt : ℤ) (id : ℕ) (prices : PriceTable) : w.calls[i]? = some call →
      call.state = .inserted model listed createdAt id → prices.nextId = w.prices.nextId →
      prices.rows = PriceTable.insertRow (newPrice model listed createdAt id) w.prices.rows →
      StepCase catalog w (.call i .commit) { w.setCall i call.updated with prices := prices }

/-- A stored row is put among the others. -/
theorem insert_eq_some {table stored : PriceTable} {row : ModelPrice}
    (h : table.insert row = some stored) :
    stored.nextId = table.nextId ∧ stored.rows = PriceTable.insertRow row table.rows := by
  unfold PriceTable.insert at h
  split at h
  · cases h
    exact ⟨rfl, rfl⟩
  · cases h

/-- What a call's event notes. -/
theorem noteListed_call {w : PriceFleet} {i : ℕ} {call : RefreshCall} (w' : PriceFleet)
    (event : RefreshCallEvent) (hcall : w.calls[i]? = some call) :
    noteListed w (.call i event) w' = w.listedBy call.state event := by
  rw [noteListed, hcall, Option.bind_some]

/-- Every step is one of these. -/
theorem step_cases {w w' : PriceFleet} {e : PriceEvent} (h : step catalog w e = some w') :
    StepCase catalog w e w' := by
  cases e with
  | tick microseconds =>
    cases h
    exact .tick microseconds
  | refresh models =>
    simp only [step] at h
    split at h
    · cases h
      exact .refresh models
    · cases h
  | call i event =>
    obtain ⟨call, hcall, h⟩ := Option.bind_eq_some_iff.mp h
    have hnote (w' : PriceFleet) := noteListed_call w' event hcall
    cases hstate : call.state with
    | listing =>
      rw [hstate] at h hnote
      cases event with
      | list response =>
        cases response with
        | none =>
          cases h
          exact .idle i _ _ rfl (hnote _)
        | some listing =>
          cases h
          exact .idle i _ _ (nextListed_idle _ _ _) (hnote _)
      | crash =>
        cases h
        exact .idle i _ _ rfl (hnote _)
      | _ => cases h
    | saving model listed =>
      rw [hstate] at h hnote
      cases event with
      | saveModel | fail | crash =>
        cases h
        exact .idle i _ _ rfl (hnote _)
      | _ => cases h
    | comparing model listed =>
      rw [hstate] at h hnote
      cases event with
      | compare =>
        cases h
        by_cases hcurrent : isCurrent (w.prices.current model.model.id) listed.rate = true
        · rw [if_pos hcurrent]
          exact .unchanged i call model listed hcall hstate hcurrent
        · rw [if_neg hcurrent]
          exact .idle i _ _ rfl ((hnote _).trans (if_neg hcurrent))
      | fail | crash =>
        cases h
        exact .idle i _ _ rfl (hnote _)
      | _ => cases h
    | inserting model listed =>
      rw [hstate] at h hnote
      cases event with
      | beginInsert =>
        cases h
        exact .began i call model listed hcall hstate
      | fail | crash =>
        cases h
        exact .idle i _ _ rfl (hnote _)
      | _ => cases h
    | opened model listed createdAt =>
      rw [hstate] at h hnote
      cases event with
      | insert =>
        cases h
        exact .took i call model listed createdAt hcall hstate
      | fail | crash =>
        cases h
        exact .idle i _ _ rfl (hnote _)
      | _ => cases h
    | inserted model listed createdAt id =>
      rw [hstate] at h hnote
      cases event with
      | commit =>
        obtain ⟨prices, hprices, rfl⟩ := Option.map_eq_some_iff.mp h
        obtain ⟨hnext, hrows⟩ := insert_eq_some hprices
        exact .committed i call model listed createdAt id prices hcall hstate hnext hrows
      | fail | crash =>
        cases h
        exact .idle i _ _ rfl (hnote _)
      | _ => cases h
    | returned | threw | crashed =>
      rw [hstate] at h
      cases h

/-! ### What is in the past stays -/

/-- A row with a higher id than the first ones comes behind them. -/
theorem insertRow_append {row : ModelPrice} {rows later : List ModelPrice}
    (h : ∀ other ∈ rows, other.id < row.id) :
    PriceTable.insertRow row (rows ++ later) = rows ++ PriceTable.insertRow row later := by
  induction rows with
  | nil => rfl
  | cons first rows ih =>
    rw [List.cons_append, PriceTable.insertRow_cons_of_lt _ (h first List.mem_cons_self), ih,
      List.cons_append]
    exact fun other hother => h other (List.mem_cons_of_mem _ hother)

/-- A row that a filter drops does not show behind it. -/
theorem filter_insertRow {row : ModelPrice} (rows : List ModelPrice) {p : ModelPrice → Bool}
    (h : p row = false) : (PriceTable.insertRow row rows).filter p = rows.filter p := by
  unfold PriceTable.insertRow
  rw [List.orderedInsert_eq_take_drop, List.filter_append, List.filter_cons_of_neg (by simp [h]),
    ← List.filter_append, List.takeWhile_append_dropWhile]

/-- The stored prices of an earlier state are all that was stored by its time, and open
transactions came later. -/
structure Since (earlier w : PriceFleet) : Prop where
  now : earlier.now ≤ w.now
  nextId : earlier.prices.nextId ≤ w.prices.nextId
  rows : ∃ later, w.prices.rows = earlier.prices.rows ++ later ∧
    ∀ row ∈ later, earlier.now ≤ row.createdAt
  began : ∀ call ∈ w.calls, ∀ createdAt ∈ call.state.createdAt, earlier.now ≤ createdAt
  took : ∀ call ∈ w.calls, ∀ id ∈ call.state.takenId, earlier.prices.nextId ≤ id

/-- A call changes outside of transactions. -/
theorem Since.idle {earlier w : PriceFleet} (h : Since earlier w) (i : ℕ) {next : RefreshCall}
    (hidle : next.state.createdAt = none) : Since earlier (w.setCall i next) :=
  ⟨h.now, h.nextId, h.rows,
    Run.forall_mem_set h.began (by simp [hidle]),
    Run.forall_mem_set h.took (by simp [RefreshState.takenId_of_idle hidle])⟩

/-- Every step goes on from the earlier state. -/
theorem Since.step {earlier w w' : PriceFleet} {e : PriceEvent} (h : Since earlier w)
    (hstep : step catalog w e = some w') : Since earlier w' := by
  cases step_cases hstep with
  | tick microseconds =>
    refine ⟨?_, h.nextId, h.rows, h.began, h.took⟩
    have hnow := h.now
    dsimp only
    omega
  | refresh models =>
    exact ⟨h.now, h.nextId, h.rows,
      Run.forall_mem_concat h.began (by simp [RefreshState.createdAt]),
      Run.forall_mem_concat h.took (by simp [RefreshState.takenId])⟩
  | idle i event next hidle hnote => exact h.idle i hidle
  | unchanged i call model listed hcall hstate hcurrent => exact h.idle i (nextListed_idle _ _ _)
  | began i call model listed hcall hstate =>
    refine ⟨h.now, h.nextId, h.rows, Run.forall_mem_set h.began ?_, Run.forall_mem_set h.took ?_⟩
    · rintro createdAt ⟨⟩
      exact h.now
    · rintro id ⟨⟩
  | took i call model listed createdAt hcall hstate =>
    have hbegan := h.began call (List.mem_of_getElem? hcall)
    rw [hstate] at hbegan
    refine ⟨h.now, Nat.le_succ_of_le h.nextId, h.rows, Run.forall_mem_set h.began hbegan,
      Run.forall_mem_set h.took ?_⟩
    rintro id ⟨⟩
    exact h.nextId
  | committed i call model listed createdAt id prices hcall hstate hnext hrows =>
    have hbegan := h.began call (List.mem_of_getElem? hcall) createdAt (by rw [hstate]; rfl)
    have htook := h.took call (List.mem_of_getElem? hcall) id (by rw [hstate]; rfl)
    have hset : Since earlier (w.setCall i call.updated) := h.idle i (nextListed_idle _ _ _)
    refine ⟨h.now, hnext ▸ h.nextId, ?_, hset.began, hset.took⟩
    obtain ⟨later, hlater, htimes⟩ := h.rows
    refine ⟨PriceTable.insertRow (newPrice model listed createdAt id) later, ?_, ?_⟩
    · dsimp only
      rw [hrows, hlater, insertRow_append]
      exact fun row hrow => lt_of_lt_of_le (earlier.prices.ids_lt row hrow) htook
    · intro row hrow
      rcases PriceTable.mem_insertRow.mp hrow with rfl | hold
      · exact hbegan
      · exact htimes row hold

/-- The rows by a time are given, and open transactions came later. -/
structure SettledBy (time : ℤ) (rows : List ModelPrice) (w : PriceFleet) : Prop where
  now : time < w.now
  rows : w.prices.rows.filter (·.createdAt ≤ time) = rows
  began : ∀ call ∈ w.calls, ∀ createdAt ∈ call.state.createdAt, time < createdAt

/-- No step adds a row by that time. -/
theorem SettledBy.step {time : ℤ} {rows : List ModelPrice} {w w' : PriceFleet} {e : PriceEvent}
    (h : SettledBy time rows w) (hstep : step catalog w e = some w') : SettledBy time rows w' := by
  have hidle {i : ℕ} {next : RefreshCall} (hidle : next.state.createdAt = none) :
      ∀ call ∈ w.calls.set i next, ∀ createdAt ∈ call.state.createdAt, time < createdAt :=
    Run.forall_mem_set h.began (by simp [hidle])
  cases step_cases hstep with
  | tick microseconds =>
    refine ⟨?_, h.rows, h.began⟩
    have hnow := h.now
    dsimp only
    omega
  | refresh models =>
    exact ⟨h.now, h.rows, Run.forall_mem_concat h.began (by simp [RefreshState.createdAt])⟩
  | idle i event next hnext hnote => exact ⟨h.now, h.rows, hidle hnext⟩
  | unchanged i call model listed hcall hstate hcurrent =>
    exact ⟨h.now, h.rows, hidle (nextListed_idle _ _ _)⟩
  | began i call model listed hcall hstate =>
    refine ⟨h.now, h.rows, Run.forall_mem_set h.began ?_⟩
    rintro createdAt ⟨⟩
    exact h.now
  | took i call model listed createdAt hcall hstate =>
    have hbegan := h.began call (List.mem_of_getElem? hcall)
    rw [hstate] at hbegan
    exact ⟨h.now, h.rows, Run.forall_mem_set h.began hbegan⟩
  | committed i call model listed createdAt id prices hcall hstate hnext hrows =>
    have hbegan := h.began call (List.mem_of_getElem? hcall) createdAt (by rw [hstate]; rfl)
    refine ⟨h.now, ?_, hidle (nextListed_idle _ _ _)⟩
    dsimp only
    rw [hrows, filter_insertRow, h.rows]
    exact decide_eq_false (not_le.mpr hbegan)

/-- The history's cost depends on the rows by the run's start only. -/
theorem tokenCostUsd_congr {w w' : PriceFleet} (prompts : List PromptTokens) {run : PricedRun}
    (h : w'.prices.rows.filter (·.createdAt ≤ run.startedAt) =
      w.prices.rows.filter (·.createdAt ≤ run.startedAt)) :
    (w'.tables catalog prompts).tokenCostUsd run.strategyName run =
      (w.tables catalog prompts).tokenCostUsd run.strategyName run := by
  have hprices (v : PriceFleet) (modelId : ℕ) : v.prices.rows.filter
      (fun price => price.supportedModelId = modelId ∧ price.createdAt ≤ run.startedAt) =
      (v.prices.rows.filter (·.createdAt ≤ run.startedAt)).filter
        (·.supportedModelId = modelId) := by
    rw [List.filter_filter]
    exact List.filter_congr fun price _ => Bool.decide_and _ _
  have hjoined : (w'.tables catalog prompts).joinedPrice run.strategyName run =
      (w.tables catalog prompts).joinedPrice run.strategyName run := by
    unfold Tables.joinedPrice
    refine congrArg _ (funext fun model => ?_)
    change (w'.prices.rows.filter _).getLast? = (w.prices.rows.filter _).getLast?
    rw [hprices, hprices, h]
  rw [Tables.tokenCostUsd, hjoined]
  rfl

/-- The leaderboard's cost is the same where only later rows were added behind. -/
theorem solveCostUsd_congr {w w' : PriceFleet} (prompts : List PromptTokens) {run : PricedRun}
    {later : List ModelPrice} (hrows : w'.prices.rows = w.prices.rows ++ later)
    (hlater : ∀ row ∈ later, getTime run.startedAt < getTime row.createdAt) :
    (w'.tables catalog prompts).solveCostUsd run = (w.tables catalog prompts).solveCostUsd run := by
  by_cases hpriced : (w.tables catalog prompts).Priced run
  · have hpriced' : (w'.tables catalog prompts).Priced run := hpriced
    rw [Tables.solveCostUsd_of_priced _ hpriced, Tables.solveCostUsd_of_priced _ hpriced']
    have hkey (key : String) : (w'.tables catalog prompts).keyPrices key =
        (w.tables catalog prompts).keyPrices key ++
          later.filter fun price =>
            ((w.tables catalog prompts).modelById price.supportedModelId).any fun model =>
              leaderboardKey model.strategyName (some model.modelName) = key := by
      rw [Tables.keyPrices, Tables.keyPrices, ← List.filter_append]
      change w'.prices.rows.filter _ = (w.prices.rows ++ later).filter _
      rw [hrows]
      rfl
    rw [hkey, AsOf.walk_append_of_later]
    · rfl
    · exact fun row hrow => hlater row (List.mem_of_mem_filter hrow)
  · have hpriced' : ¬ (w'.tables catalog prompts).Priced run := hpriced
    rw [Tables.solveCostUsd_of_not_priced _ hpriced, Tables.solveCostUsd_of_not_priced _ hpriced']

/-- Whatever refreshes do from a state on, they change the cost of no earlier run: not the history's
if no transaction is open that began by the run's start, and not the leaderboard's if none is open
at all and the millisecond of the start is over. -/
theorem cost_of_past_run_is_settled {w w' : PriceFleet}
    (h : Run.Reaches (step catalog) Run.always w w') (prompts : List PromptTokens)
    (run : PricedRun) :
    (run.startedAt < w.now →
      (∀ call ∈ w.calls, ∀ createdAt ∈ call.state.createdAt, run.startedAt < createdAt) →
      (w'.tables catalog prompts).tokenCostUsd run.strategyName run =
        (w.tables catalog prompts).tokenCostUsd run.strategyName run) ∧
    (getTime run.startedAt < getTime w.now → (∀ call ∈ w.calls, call.state.createdAt = none) →
      (w'.tables catalog prompts).solveCostUsd run =
        (w.tables catalog prompts).solveCostUsd run) := by
  constructor
  · intro hpast hbegan
    have hsettled : SettledBy run.startedAt
        (w.prices.rows.filter (·.createdAt ≤ run.startedAt)) w' :=
      h.invariant ⟨hpast, rfl, hbegan⟩ fun _ _ _ hinv _ hstep => hinv.step hstep
    exact tokenCostUsd_congr prompts hsettled.rows
  · intro hpast hnone
    have hfirst : Since w w :=
      ⟨le_refl _, le_refl _, ⟨[], by simp, by simp⟩, fun call hcall => by simp [hnone call hcall],
        fun call hcall => by simp [RefreshState.takenId_of_idle (hnone call hcall)]⟩
    have hsince : Since w w' := h.invariant hfirst fun _ _ _ hinv _ hstep => hinv.step hstep
    obtain ⟨later, hrows, htimes⟩ := hsince.rows
    refine solveCostUsd_congr prompts hrows fun row hrow => lt_of_lt_of_le hpast ?_
    have hlate := htimes row hrow
    unfold getTime
    omega

/-- A catalog with one model. -/
def nanoCatalog : Catalog where
  models := [⟨⟨1, "llm-openai", "gpt-4.1-nano"⟩, some "openai/gpt-4.1-nano"⟩]
  model_ids := by decide
  model_names := by decide

/-- Its listed entry at some price for a token. -/
def nanoListed (prompt completion : ℚ) : OpenRouterModel :=
  ⟨"openai/gpt-4.1-nano", prompt, completion⟩

/-- No price is stored. -/
def noPrices : PriceTable := ⟨[], 0, .nil, by simp⟩

/-- A refresh comes to the insertion of a price. -/
def changes (i : ℕ) (listed : OpenRouterModel) : List PriceEvent :=
  [.refresh nanoCatalog.models, .call i (.list (some [listed])), .call i .saveModel,
    .call i .compare, .call i .beginInsert]

/-- A run of a million tokens each way, in the millisecond 15. -/
def nanoRun : PricedRun := ⟨1, "llm-openai", some "gpt-4.1-nano", 15000⟩

/-- What that run used. -/
def nanoPrompts : List PromptTokens := [⟨1, some 1000000, some 1000000⟩]

/-- The first of two refreshes is done before the run's millisecond is over; the other one does not
change what the run cost. -/
theorem later_refresh_changes_no_cost :
    ∃ w w', Run.Reaches (step nanoCatalog) Run.always (start 0 noPrices) w ∧
      Run.Reaches (step nanoCatalog) Run.always w w' ∧ w'.prices.rows.length = 2 ∧
      (w'.tables nanoCatalog nanoPrompts).solveCostUsd nanoRun = some (1 / 2) ∧
      (w'.tables nanoCatalog nanoPrompts).tokenCostUsd nanoRun.strategyName nanoRun =
        some (1 / 2) := by
  obtain ⟨w, hrun, hend⟩ := Run.exists_reaches (step nanoCatalog) Run.always (start 0 noPrices)
    (changes 0 (nanoListed (1 / 10000000) (4 / 10000000)) ++
      [.call 0 .insert, .call 0 .commit, .tick 20000])
    (fun w =>
      (w.tables nanoCatalog nanoPrompts).solveCostUsd nanoRun = some (1 / 2) ∧
      (w.tables nanoCatalog nanoPrompts).tokenCostUsd nanoRun.strategyName nanoRun =
        some (1 / 2) ∧
      nanoRun.startedAt < w.now ∧ getTime nanoRun.startedAt < getTime w.now ∧
      (∀ call ∈ w.calls, call.state.createdAt = none) ∧
      ((Run.exec (step nanoCatalog) Run.always w
        (changes 1 (nanoListed (2 / 10000000) (4 / 10000000)) ++
          [.call 1 .insert, .call 1 .commit])).map fun w' =>
        decide (w'.prices.rows.length = 2)) = some true) (by decide +kernel)
  obtain ⟨hsolve, htoken, hpast, hmilli, hnone, hmore⟩ := of_decide_eq_true hend
  obtain ⟨w', hrun', hlength⟩ := Run.exists_reaches _ _ _ _ _ hmore
  obtain ⟨hhistory, hleaderboard⟩ := cost_of_past_run_is_settled hrun' nanoPrompts nanoRun
  refine ⟨w, w', hrun, hrun', of_decide_eq_true hlength, ?_, ?_⟩
  · rw [hleaderboard hmilli hnone, hsolve]
  · rw [hhistory hpast fun call hcall => by simp [hnone call hcall], htoken]

/-- A refresh that takes its id before another one's and commits after it hides the other one's
price from the leaderboard. -/
theorem late_commit_hides_a_price :
    ∃ w w', Run.Reaches (step nanoCatalog) Run.always (start 0 noPrices) w ∧
      getTime nanoRun.startedAt < getTime w.now ∧
      step nanoCatalog w (.call 1 .commit) = some w' ∧
      (w.tables nanoCatalog nanoPrompts).solveCostUsd nanoRun = some (1 / 2) ∧
      (w'.tables nanoCatalog nanoPrompts).solveCostUsd nanoRun = none := by
  obtain ⟨w, hrun, hend⟩ := Run.exists_reaches (step nanoCatalog) Run.always (start 0 noPrices)
    (changes 0 (nanoListed (1 / 10000000) (4 / 10000000)) ++ [.tick 20000] ++
      changes 1 (nanoListed (2 / 10000000) (4 / 10000000)) ++
      [.call 1 .insert, .call 0 .insert, .call 0 .commit])
    (fun w => getTime nanoRun.startedAt < getTime w.now ∧
      (w.tables nanoCatalog nanoPrompts).solveCostUsd nanoRun = some (1 / 2) ∧
      ((step nanoCatalog w (.call 1 .commit)).map fun w' =>
        decide ((w'.tables nanoCatalog nanoPrompts).solveCostUsd nanoRun = none)) = some true)
    (by decide +kernel)
  obtain ⟨hmilli, hsolve, hnext⟩ := of_decide_eq_true hend
  obtain ⟨w', hstep, hnone⟩ := Option.map_eq_some_iff.mp hnext
  exact ⟨w, w', hrun, hmilli, hstep, hsolve, of_decide_eq_true hnone⟩

/-! ### The price in effect -/

/-- A model's rows are committed in the order of their ids. -/
def CommitsInOrder (w : PriceFleet) : PriceEvent → Prop
  | .call i .commit => ∀ call ∈ w.calls[i]?, ∀ id ∈ call.state.takenId,
    ∀ model ∈ call.state.model, ∀ row ∈ w.prices.rows,
      row.supportedModelId = model.model.id → row.id < id
  | _ => True

instance (w : PriceFleet) : (e : PriceEvent) → Decidable (CommitsInOrder w e)
  | .tick _ | .refresh _ => inferInstanceAs (Decidable True)
  | .call i event =>
    match event with
    | .commit => inferInstanceAs (Decidable (∀ call ∈ w.calls[i]?, ∀ id ∈ call.state.takenId,
        ∀ model ∈ call.state.model, ∀ row ∈ w.prices.rows,
          row.supportedModelId = model.model.id → row.id < id))
    | .list _ | .saveModel | .compare | .beginInsert | .insert | .fail | .crash =>
      inferInstanceAs (Decidable True)

/-- Behind the model's other rows the new one is the last. -/
theorem filter_insertRow_concat {row : ModelPrice} {rows : List ModelPrice}
    {p : ModelPrice → Bool} (hids : rows.Pairwise (·.id < ·.id)) (hrow : p row = true)
    (hlast : ∀ other ∈ rows, p other = true → other.id < row.id) :
    (PriceTable.insertRow row rows).filter p = rows.filter p ++ [row] := by
  induction rows with
  | nil => simp [PriceTable.insertRow, hrow]
  | cons first rows ih =>
    obtain ⟨hfirst, hrest⟩ := List.pairwise_cons.mp hids
    by_cases hle : row.id ≤ first.id
    · -- All others have higher ids, and are dropped.
      have hdropped : (first :: rows).filter p = [] := by
        refine List.filter_eq_nil_iff.mpr fun other hother hp => ?_
        have hlt := hlast other hother hp
        rcases List.mem_cons.mp hother with rfl | hother
        · omega
        · have hgt := hfirst other hother
          omega
      rw [PriceTable.insertRow_cons_of_le rows hle, List.filter_cons_of_pos hrow, hdropped]
      rfl
    · rw [PriceTable.insertRow_cons_of_lt rows (Nat.lt_of_not_le hle), List.filter_cons,
        List.filter_cons, ih hrest fun other hother => hlast other (List.mem_cons_of_mem _ hother)]
      split <;> rfl

/-- The rows of a model. -/
def rowsOf (w : PriceFleet) (modelId : ℕ) : List ModelPrice :=
  w.prices.rows.filter (·.supportedModelId = modelId)

/-- What was noted of a model. -/
def toldOf (log : List Listed) (modelId : ℕ) : List Listed := log.filter (·.modelId = modelId)

/-- At every time the rows show the rate that was noted last by then. -/
structure ShowsLast (v : PriceFleet × List Listed) : Prop where
  past : ∀ row ∈ v.1.prices.rows, row.createdAt ≤ v.1.now
  told : ∀ listed ∈ v.2, listed.time ≤ v.1.now
  began : ∀ call ∈ v.1.calls, ∀ createdAt ∈ call.state.createdAt, createdAt ≤ v.1.now
  rate : ∀ modelId time,
    (AsOf.latest (·.createdAt) time (v.1.rowsOf modelId)).map ModelPrice.rate =
      (AsOf.latest (·.time) time (toldOf v.2 modelId)).map Listed.rate

/-- The first rows are what was noted first. -/
theorem ShowsLast.start {now : ℤ} {prices : PriceTable}
    (hpast : ∀ row ∈ prices.rows, row.createdAt ≤ now) :
    ShowsLast (start now prices, prices.rows.map ModelPrice.listed) := by
  refine ⟨hpast, ?_, by simp [PriceFleet.start], fun modelId time => ?_⟩
  · intro listed hlisted
    obtain ⟨row, hrow, rfl⟩ := List.mem_map.mp hlisted
    exact hpast row hrow
  · have htold : toldOf (prices.rows.map ModelPrice.listed) modelId =
        ((PriceFleet.start now prices).rowsOf modelId).map ModelPrice.listed := by
      rw [toldOf, List.filter_map]
      rfl
    rw [htold, AsOf.latest_map, Option.map_map]
    rfl

/-- A call changes, and nothing is noted. -/
theorem ShowsLast.idle {w : PriceFleet} {log : List Listed} (h : ShowsLast (w, log)) (i : ℕ)
    {next : RefreshCall} (hnext : ∀ createdAt ∈ next.state.createdAt, createdAt ≤ w.now) :
    ShowsLast (w.setCall i next, log) :=
  ⟨h.past, h.told, Run.forall_mem_set h.began hnext, h.rate⟩

/-- What is noted of a model is noted of no other. -/
theorem toldOf_concat (log : List Listed) (listed : Listed) (modelId : ℕ) :
    toldOf (log ++ [listed]) modelId =
      if listed.modelId = modelId then toldOf log modelId ++ [listed] else toldOf log modelId := by
  unfold toldOf
  by_cases hmodel : listed.modelId = modelId <;> simp [List.filter_append, hmodel]

/-- Every step keeps to it. -/
theorem ShowsLast.step {v v' : PriceFleet × List Listed} {e : PriceEvent} (h : ShowsLast v)
    (hok : CommitsInOrder v.1 e) (hstep : Run.logged (step catalog) noteListed v e = some v') :
    ShowsLast v' := by
  obtain ⟨w, log⟩ := v
  obtain ⟨w', hw, rfl⟩ := Option.map_eq_some_iff.mp hstep
  have hidle {next : RefreshCall} (hidle : next.state.createdAt = none) :
      ∀ createdAt ∈ next.state.createdAt, createdAt ≤ w.now := by simp [hidle]
  cases step_cases hw with
  | tick microseconds =>
    have hnow : w.now ≤ w.now + microseconds := by omega
    simp only [noteListed, Option.toList_none, List.append_nil]
    exact ⟨fun row hrow => (h.past row hrow).trans hnow, fun t ht => (h.told t ht).trans hnow,
      fun call hcall t ht => (h.began call hcall t ht).trans hnow, h.rate⟩
  | refresh models =>
    simp only [noteListed, Option.toList_none, List.append_nil]
    exact ⟨h.past, h.told, Run.forall_mem_concat h.began (by simp [RefreshState.createdAt]), h.rate⟩
  | idle i event next hnext hnote =>
    dsimp only
    rw [hnote, Option.toList_none, List.append_nil]
    exact h.idle i (hidle hnext)
  | unchanged i call model listed hcall hstate hcurrent =>
    dsimp only
    rw [noteListed_call _ _ hcall, hstate, listedBy, if_pos hcurrent, Option.toList_some]
    have hset := h.idle i (hidle (nextListed_idle _ _ _ : call.updated.state.createdAt = none))
    refine ⟨hset.past, Run.forall_mem_concat h.told (le_refl _), hset.began, fun modelId time => ?_⟩
    rw [toldOf_concat]
    split
    · rename_i hmodel
      subst hmodel
      rw [AsOf.latest_append_singleton]
      split
      · rename_i hlate
        -- All rows are in the past, and the last one has the rate.
        obtain ⟨price, hprice, hrate⟩ := Option.any_eq_true _ _ |>.mp hcurrent
        have hpast : ∀ row ∈ w.rowsOf model.model.id, row.createdAt ≤ time := fun row hrow =>
          (h.past row (List.mem_of_mem_filter hrow)).trans hlate
        have hlast : AsOf.latest (·.createdAt) time (w.rowsOf model.model.id) = some price :=
          (AsOf.latest_eq_getLast? _ _ hpast).trans hprice
        change (AsOf.latest _ time (w.rowsOf model.model.id)).map ModelPrice.rate = _
        rw [hlast, Option.map_some, of_decide_eq_true hrate]
        rfl
      · exact h.rate _ time
    · exact h.rate modelId time
  | began i call model listed hcall hstate =>
    dsimp only
    rw [noteListed_call _ _ hcall, hstate, listedBy, Option.toList_none, List.append_nil]
    · refine h.idle i ?_
      rintro createdAt ⟨⟩
      exact le_refl _
    all_goals simp
  | took i call model listed createdAt hcall hstate =>
    dsimp only
    rw [noteListed_call _ _ hcall, hstate, listedBy, Option.toList_none, List.append_nil]
    · have hbegan := h.began call (List.mem_of_getElem? hcall)
      rw [hstate] at hbegan
      exact ⟨h.past, h.told, Run.forall_mem_set h.began hbegan, h.rate⟩
    all_goals simp
  | committed i call model listed createdAt id prices hcall hstate hnext hrows =>
    dsimp only
    rw [noteListed_call _ _ hcall, hstate, listedBy, Option.toList_some]
    have hbegan : createdAt ≤ w.now :=
      h.began call (List.mem_of_getElem? hcall) createdAt (by rw [hstate]; rfl)
    have hset := h.idle i (hidle (nextListed_idle _ _ _ : call.updated.state.createdAt = none))
    have hlast : ∀ row ∈ w.prices.rows, row.supportedModelId = model.model.id → row.id < id :=
      hok call hcall id (by rw [hstate]; rfl) model (by rw [hstate]; rfl)
    refine ⟨fun row hrow => ?_, Run.forall_mem_concat h.told hbegan, hset.began,
      fun modelId time => ?_⟩
    · dsimp only at hrow
      rw [hrows] at hrow
      rcases PriceTable.mem_insertRow.mp hrow with rfl | hold
      · exact hbegan
      · exact h.past row hold
    · rw [toldOf_concat]
      unfold rowsOf
      dsimp only
      rw [hrows]
      split
      · rename_i hmodel
        rw [filter_insertRow_concat w.prices.ids (decide_eq_true hmodel)
          fun other hother hown => hlast other hother ((of_decide_eq_true hown).trans hmodel.symm),
          AsOf.latest_append_singleton, AsOf.latest_append_singleton]
        by_cases hlate : createdAt ≤ time
        · rw [if_pos (by exact hlate), if_pos (by exact hlate)]
          rfl
        · rw [if_neg (by exact hlate), if_neg (by exact hlate)]
          exact h.rate modelId time
      · rename_i hmodel
        rw [filter_insertRow _ (decide_eq_false hmodel)]
        exact h.rate modelId time

/-- As long as each model's rows are committed in the order of their ids, a table of changes only
serves as well as a record of every listed rate that was found stored or committed: the history
prices a run at the rate that was noted last by its start, and the price that a model is shown with
is the one that was noted last. -/
theorem price_in_effect_is_last_listed {now : ℤ} {prices : PriceTable}
    (hpast : ∀ row ∈ prices.rows, row.createdAt ≤ now) {w : PriceFleet} {log : List Listed}
    (h : Run.Reaches (Run.logged (step catalog) noteListed) (fun v e => CommitsInOrder v.1 e)
      (start now prices, prices.rows.map ModelPrice.listed) (w, log))
    (prompts : List PromptTokens) (run : PricedRun) :
    (w.tables catalog prompts).tokenCostUsd run.strategyName run =
      (((w.tables catalog prompts).joinedModel run.strategyName run).bind fun model =>
        AsOf.latest (·.time) run.startedAt (toldOf log model.id)).map (fun listed =>
          computeTokenCostUsd ((w.tables catalog prompts).totals run.id).promptTokens
            ((w.tables catalog prompts).totals run.id).completionTokens listed.rate) ∧
    ∀ modelId, (w.prices.currentPriceByModelId modelId).map ModelPrice.rate =
      (toldOf log modelId).getLast?.map Listed.rate := by
  have hshows : ShowsLast (w, log) :=
    h.invariant (.start hpast) fun _ _ _ hinv hok hstep => hinv.step hok hstep
  constructor
  · rw [Tables.tokenCostUsd_eq, Tables.ownPrices]
    cases (w.tables catalog prompts).joinedModel run.strategyName run with
    | none => rfl
    | some model =>
      have hrate := hshows.rate model.id run.startedAt
      have hcosts := congrArg (Option.map (computeTokenCostUsd
        ((w.tables catalog prompts).totals run.id).promptTokens
        ((w.tables catalog prompts).totals run.id).completionTokens)) hrate
      rw [Option.map_map, Option.map_map] at hcosts
      exact hcosts
  · intro modelId
    have hrate := hshows.rate modelId w.now
    rw [AsOf.latest_eq_getLast?, AsOf.latest_eq_getLast?] at hrate
    · rw [PriceTable.currentPriceByModelId_eq]
      exact hrate
    · exact fun listed hlisted => hshows.told listed (List.mem_of_mem_filter hlisted)
    · exact fun row hrow => hshows.past row (List.mem_of_mem_filter hrow)

/-- Three refreshes of one model, the second of which finds its rate stored, leave two rows. -/
theorem three_refreshes_leave_two_rows :
    ∃ (w : PriceFleet) (log : List Listed),
      Run.Reaches (Run.logged (step nanoCatalog) noteListed) (fun v e => CommitsInOrder v.1 e)
        (start 0 noPrices, noPrices.rows.map ModelPrice.listed) (w, log) ∧
      w.prices.rows.length = 2 ∧ log.length = 3 ∧
      ∀ modelId, (w.prices.currentPriceByModelId modelId).map ModelPrice.rate =
        (toldOf log modelId).getLast?.map Listed.rate := by
  obtain ⟨⟨w, log⟩, hrun, hend⟩ := Run.exists_reaches
    (Run.logged (step nanoCatalog) noteListed) (fun v e => CommitsInOrder v.1 e)
    (start 0 noPrices, noPrices.rows.map ModelPrice.listed)
    (changes 0 (nanoListed (1 / 10000000) (4 / 10000000)) ++
      [.call 0 .insert, .call 0 .commit] ++
      [.refresh nanoCatalog.models,
        .call 1 (.list (some [nanoListed (1 / 10000000) (4 / 10000000)])), .call 1 .saveModel,
        .call 1 .compare] ++
      changes 2 (nanoListed (2 / 10000000) (4 / 10000000)) ++
      [.call 2 .insert, .call 2 .commit])
    (fun v => v.1.prices.rows.length = 2 ∧ v.2.length = 3) (by decide +kernel)
  obtain ⟨hrows, hlog⟩ := of_decide_eq_true hend
  exact ⟨w, log, hrun, hrows, hlog,
    (price_in_effect_is_last_listed (by simp [noPrices]) hrun nanoPrompts nanoRun).2⟩

end PriceFleet

end Connections.Leaderboard

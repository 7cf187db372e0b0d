import Connections.Leaderboard.Costs
import Connections.Library.Run
import Mathlib.Data.List.Sort
import Mathlib.Data.Rat.Floor

/-!
# Price refreshes side by side

A refresh goes through the models one by one and inserts a price row where the listed rate is not
the last stored one.  The scheduled worker, the daily automation and the dispatch endpoint each
refresh on their own, so that any number of refreshes run at once.  A row gets its time when its
transaction begins, its id when it is inserted, and is seen once it is committed.
-/

namespace Connections.Leaderboard

/-- A supported model with the name it is listed under. -/
structure CatalogModel where
  model : SupportedModel
  openRouterSlug : Option String
  deriving DecidableEq, Repr

/-- The models, under their keys. -/
structure Catalog where
  models : List CatalogModel
  model_ids : (models.map (·.model.id)).Nodup
  model_names : (models.map fun m => (m.model.strategyName, m.model.modelName)).Nodup

/-- The columns of a listed model that pricing reads, in dollars for a token. -/
structure OpenRouterModel where
  id : String
  prompt : ℚ
  completion : ℚ
  deriving DecidableEq

structure RefreshSummary where
  updated : ℕ
  skipped : ℕ
  errored : ℕ
  deriving DecidableEq, Repr

deriving instance DecidableEq for ModelRate

/-- Six decimals, a half upwards. -/
def round6 (value : ℚ) : ℚ := (⌊value * 1000000 + 1 / 2⌋ : ℤ) / 1000000

/-- The rates of a listed model, for a million tokens. -/
def OpenRouterModel.rate (listed : OpenRouterModel) : ModelRate :=
  ⟨round6 (listed.prompt * 1000000), round6 (listed.completion * 1000000)⟩

/-- The listed model that a slug finds in the map of the list, whose later entries win. -/
def byId (listing : List OpenRouterModel) (slug : String) : Option OpenRouterModel :=
  (listing.filter (·.id = slug)).getLast?

/-- The slug of a model that is mapped to a listed one. -/
def CatalogModel.slug (model : CatalogModel) : Option String :=
  model.openRouterSlug.filter (· ≠ "")

/-! ### The stored prices -/

/-- The price table, in the order of its ids, all handed out by its sequence. -/
structure PriceTable where
  rows : List ModelPrice
  nextId : ℕ
  ids : rows.Pairwise (·.id < ·.id)
  ids_lt : ∀ row ∈ rows, row.id < nextId

namespace PriceTable

/-- The order of the ids. -/
abbrev idLe (p q : ModelPrice) : Prop := p.id ≤ q.id

/-- A row put among the others by its id. -/
def insertRow (row : ModelPrice) (rows : List ModelPrice) : List ModelPrice :=
  rows.orderedInsert idLe row

/-- A new row joins the rows of the table. -/
theorem mem_insertRow {row other : ModelPrice} {rows : List ModelPrice} :
    other ∈ insertRow row rows ↔ other = row ∨ other ∈ rows := List.mem_orderedInsert _

/-- A row of the lowest id comes first. -/
theorem insertRow_cons_of_le {row first : ModelPrice} (rows : List ModelPrice)
    (h : row.id ≤ first.id) : insertRow row (first :: rows) = row :: first :: rows :=
  List.orderedInsert_cons_of_le _ _ h

/-- A row of a higher id goes in behind the first. -/
theorem insertRow_cons_of_lt {row first : ModelPrice} (rows : List ModelPrice)
    (h : first.id < row.id) : insertRow row (first :: rows) = first :: insertRow row rows :=
  List.orderedInsert_of_not_le _ _ (Nat.not_le_of_lt h)

/-- A row under a new id leaves the ids in order. -/
theorem insertRow_ids {row : ModelPrice} {rows : List ModelPrice}
    (hids : rows.Pairwise (·.id < ·.id)) (hnew : ∀ other ∈ rows, other.id ≠ row.id) :
    (insertRow row rows).Pairwise (·.id < ·.id) := by
  induction rows with
  | nil => exact List.pairwise_singleton _ _
  | cons first rows ih =>
    obtain ⟨hfirst, hrest⟩ := List.pairwise_cons.mp hids
    rcases Nat.lt_or_gt_of_ne (hnew first List.mem_cons_self) with hlt | hgt
    · rw [insertRow_cons_of_lt rows hlt]
      refine List.pairwise_cons.mpr ⟨fun other hother => ?_, ih hrest fun other hother =>
        hnew other (List.mem_cons_of_mem _ hother)⟩
      rcases mem_insertRow.mp hother with rfl | hold
      · exact hlt
      · exact hfirst other hold
    · rw [insertRow_cons_of_le rows (Nat.le_of_lt hgt)]
      refine List.pairwise_cons.mpr ⟨fun other hother => ?_, hids⟩
      rcases List.mem_cons.mp hother with rfl | hold
      · exact hgt
      · exact Nat.lt_trans hgt (hfirst other hold)

/-- The next id of the sequence. -/
def allocate (table : PriceTable) : PriceTable where
  rows := table.rows
  nextId := table.nextId + 1
  ids := table.ids
  ids_lt row hrow := Nat.lt_succ_of_lt (table.ids_lt row hrow)

/-- Store a row under an id of the sequence that no row has. -/
def insert (table : PriceTable) (row : ModelPrice) : Option PriceTable :=
  if h : row.id < table.nextId ∧ ∀ other ∈ table.rows, other.id ≠ row.id then
    some
      { rows := insertRow row table.rows
        nextId := table.nextId
        ids := insertRow_ids table.ids h.2
        ids_lt := fun other hother => by
          rcases mem_insertRow.mp hother with rfl | hother
          · exact h.1
          · exact table.ids_lt other hother }
  else none

/-- The last row of a model. -/
def current (table : PriceTable) (modelId : ℕ) : Option ModelPrice :=
  (table.rows.filter (·.supportedModelId = modelId)).getLast?

/-- The map of the models' prices that is filled row by row. -/
def currentPriceByModelId (table : PriceTable) : ℕ → Option ModelPrice :=
  table.rows.foldl (fun map price => Function.update map price.supportedModelId (some price))
    fun _ => none

/-- The map has the last row of each model. -/
theorem currentPriceByModelId_eq (table : PriceTable) (modelId : ℕ) :
    table.currentPriceByModelId modelId = table.current modelId := by
  have hview : table.currentPriceByModelId modelId =
      (table.rows.filterMap (Option.guard (·.supportedModelId = modelId))).getLast?.or none := by
    refine AsOf.view_foldl (fun map : ℕ → Option ModelPrice => map modelId) _ (fun map price => ?_)
      _ _
    by_cases hmodel : price.supportedModelId = modelId
    · simp [hmodel, Option.guard]
    · simp [hmodel, Option.guard, Function.update_of_ne (Ne.symm hmodel)]
  rw [hview, Option.or_none, List.filterMap_eq_filter, current]

end PriceTable

/-! ### One refresh -/

/-- What a refresh does next, with the model in hand and its listed entry. -/
inductive RefreshState
  | listing
  | saving (model : CatalogModel) (listed : OpenRouterModel)
  | comparing (model : CatalogModel) (listed : OpenRouterModel)
  | inserting (model : CatalogModel) (listed : OpenRouterModel)
  /-- The transaction has begun. -/
  | opened (model : CatalogModel) (listed : OpenRouterModel) (createdAt : ℤ)
  | inserted (model : CatalogModel) (listed : OpenRouterModel) (createdAt : ℤ) (id : ℕ)
  | returned
  | threw
  | crashed
  deriving DecidableEq

/-- A call of `refreshAll`, with the models it has not come to. -/
structure RefreshCall where
  models : List CatalogModel
  listing : List OpenRouterModel
  summary : RefreshSummary
  state : RefreshState
  deriving DecidableEq

/-- Go on to the next model with a listed entry; those without one are skipped. -/
def nextListed (listing : List OpenRouterModel) (summary : RefreshSummary) :
    List CatalogModel → RefreshCall
  | [] => ⟨[], listing, summary, .returned⟩
  | model :: models =>
    match model.slug.bind (byId listing) with
    | none => nextListed listing { summary with skipped := summary.skipped + 1 } models
    | some listed => ⟨models, listing, summary, .saving model listed⟩

/-- A model is done. -/
def RefreshCall.updated (call : RefreshCall) : RefreshCall :=
  nextListed call.listing { call.summary with updated := call.summary.updated + 1 } call.models

/-- The list could not be fetched. -/
def RefreshCall.unlisted (call : RefreshCall) : RefreshCall :=
  { call with
    summary := ⟨0, 0, (call.models.filter (·.slug.isSome)).length⟩
    state := .returned }

/-- Whether the last stored price has the listed rate. -/
def isCurrent (current : Option ModelPrice) (rate : ModelRate) : Bool :=
  current.any fun price => price.rate = rate

/-- The row that a refresh inserts. -/
def newPrice (model : CatalogModel) (listed : OpenRouterModel) (createdAt : ℤ) (id : ℕ) :
    ModelPrice :=
  ⟨id, model.model.id, listed.rate.inputCostPerMillionTokens,
    listed.rate.outputCostPerMillionTokens, createdAt⟩

/-! ### All of them -/

/-- The clock, in microseconds, the price table and the refreshes so far. -/
structure PriceFleet where
  now : ℤ
  prices : PriceTable
  calls : List RefreshCall

/-- What happens to one refresh. -/
inductive RefreshCallEvent
  | list (response : Option (List OpenRouterModel))
  | saveModel
  | compare
  | beginInsert
  | insert
  | commit
  /-- The database fails. -/
  | fail
  | crash

/-- What happens around the refreshes; a call is named by its number. -/
inductive PriceEvent
  | tick (microseconds : ℕ)
  /-- A refresh begins, with the models in the order in which they are read. -/
  | refresh (models : List CatalogModel)
  | call (i : ℕ) (event : RefreshCallEvent)

namespace PriceFleet

/-- The stored prices, before any refresh. -/
def start (now : ℤ) (prices : PriceTable) : PriceFleet := ⟨now, prices, []⟩

/-- Put a call into the place of its number. -/
def setCall (w : PriceFleet) (i : ℕ) (call : RefreshCall) : PriceFleet :=
  { w with calls := w.calls.set i call }

/-- The step of one call. -/
def callStep (w : PriceFleet) (i : ℕ) (call : RefreshCall) :
    RefreshState → RefreshCallEvent → Option PriceFleet
  | .listing, .list (some listing) =>
    some (w.setCall i (nextListed listing call.summary call.models))
  | .listing, .list none => some (w.setCall i call.unlisted)
  | .saving model listed, .saveModel =>
    some (w.setCall i { call with state := .comparing model listed })
  | .comparing model listed, .compare =>
    some (w.setCall i
      (if isCurrent (w.prices.current model.model.id) listed.rate then call.updated
        else { call with state := .inserting model listed }))
  | .inserting model listed, .beginInsert =>
    some (w.setCall i { call with state := .opened model listed w.now })
  | .opened model listed createdAt, .insert =>
    some { w.setCall i { call with state := .inserted model listed createdAt w.prices.nextId } with
      prices := w.prices.allocate }
  | .inserted model listed createdAt id, .commit =>
    (w.prices.insert (newPrice model listed createdAt id)).map fun prices =>
      { w.setCall i call.updated with prices := prices }
  | .returned, _ | .threw, _ | .crashed, _ => none
  | _, .crash => some (w.setCall i { call with state := .crashed })
  | .listing, .fail => none
  | _, .fail => some (w.setCall i { call with state := .threw })
  | _, _ => none

/-- One step around the refreshes; an event that cannot happen is refused. -/
def step (catalog : Catalog) (w : PriceFleet) : PriceEvent → Option PriceFleet
  | .tick microseconds => some { w with now := w.now + microseconds }
  | .refresh models =>
    if models.Perm catalog.models then
      some { w with calls := w.calls ++ [⟨models, [], ⟨0, 0, 0⟩, .listing⟩] }
    else none
  | .call i event => (w.calls[i]?).bind fun call => w.callStep i call call.state event

/-- What the leaderboard and the run history read. -/
def tables (catalog : Catalog) (prompts : List PromptTokens) (w : PriceFleet) : Tables where
  supportedModels := catalog.models.map (·.model)
  modelPrices := w.prices.rows
  solvePrompts := prompts
  model_ids := by
    rw [List.map_map]
    exact catalog.model_ids
  model_names := by
    rw [List.map_map]
    exact catalog.model_names
  price_ids := w.prices.ids

end PriceFleet

end Connections.Leaderboard

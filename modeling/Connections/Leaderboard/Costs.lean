import Connections.Library.AsOf
import Mathlib.Data.Rat.Defs
import Mathlib.Data.List.Dedup
import Mathlib.Tactic.Linarith

/-!
# What a run cost, twice

The leaderboard prices a run in memory, from summed prompt rows and a price list; the run history
prices it in SQL.  Amounts are exact.  Times are microseconds, as the database stores them; a
JavaScript date keeps the milliseconds.
-/

namespace Connections.Leaderboard

/-- The columns of a supported model that pricing reads. -/
structure SupportedModel where
  id : ℕ
  strategyName : String
  modelName : String
  deriving DecidableEq, Repr

/-- A price row. -/
structure ModelPrice where
  id : ℕ
  supportedModelId : ℕ
  inputCostPerMillionTokens : ℚ
  outputCostPerMillionTokens : ℚ
  createdAt : ℤ
  deriving DecidableEq

/-- The columns of a stored prompt that pricing reads. -/
structure PromptTokens where
  strategyRunId : ℕ
  promptTokens : Option ℤ
  completionTokens : Option ℤ
  deriving DecidableEq, Repr

/-- The columns of a run that pricing reads. -/
structure PricedRun where
  id : ℕ
  strategyName : String
  modelName : Option String
  startedAt : ℤ
  deriving DecidableEq, Repr

/-- The tables, under their keys; price rows are listed in the order of their ids. -/
structure Tables where
  supportedModels : List SupportedModel
  modelPrices : List ModelPrice
  solvePrompts : List PromptTokens
  model_ids : (supportedModels.map (·.id)).Nodup
  model_names : (supportedModels.map fun m => (m.strategyName, m.modelName)).Nodup
  price_ids : modelPrices.Pairwise (·.id < ·.id)

/-- The time value of a JavaScript date read from a timestamp. -/
def getTime (timestamp : ℤ) : ℤ := timestamp / 1000

/-- The key of a leaderboard row. -/
def leaderboardKey (strategyName : String) (modelName : Option String) : String :=
  strategyName ++ "::" ++ modelName.getD ""

/-- The two rates of a price. -/
structure ModelRate where
  inputCostPerMillionTokens : ℚ
  outputCostPerMillionTokens : ℚ

/-- The price of a run's tokens at a rate. -/
def computeTokenCostUsd (promptTokens completionTokens : ℤ) (rate : ModelRate) : ℚ :=
  promptTokens / 1000000 * rate.inputCostPerMillionTokens +
    completionTokens / 1000000 * rate.outputCostPerMillionTokens

/-- A price with the names of its model. -/
structure PriceHistoryEntry where
  strategyName : String
  modelName : String
  createdAt : ℤ
  inputCostPerMillionTokens : ℚ
  outputCostPerMillionTokens : ℚ

/-- The rates of an entry. -/
def PriceHistoryEntry.rate (entry : PriceHistoryEntry) : ModelRate :=
  ⟨entry.inputCostPerMillionTokens, entry.outputCostPerMillionTokens⟩

/-- The rates of a price row. -/
def ModelPrice.rate (price : ModelPrice) : ModelRate :=
  ⟨price.inputCostPerMillionTokens, price.outputCostPerMillionTokens⟩

/-- A price row joined with its model. -/
def ModelPrice.entry (price : ModelPrice) (model : SupportedModel) : PriceHistoryEntry :=
  ⟨model.strategyName, model.modelName, price.createdAt, price.inputCostPerMillionTokens,
    price.outputCostPerMillionTokens⟩

/-- The price in effect at a time. -/
def priceAsOf.scan (at' : ℤ) (rate : Option ModelRate) : List PriceHistoryEntry → Option ModelRate
  | [] => rate
  | entry :: entries =>
    if getTime entry.createdAt > getTime at' then rate else scan at' (some entry.rate) entries

/-- The price in effect at a time; no list is no price. -/
def priceAsOf (history : Option (List PriceHistoryEntry)) (at' : ℤ) : Option ModelRate :=
  match history with
  | none => none
  | some entries => priceAsOf.scan at' none entries

/-- `SUM` over a nullable column. -/
def sqlSum (column : List (Option ℤ)) : Option ℤ :=
  if column.reduceOption = [] then none else some column.reduceOption.sum

/-- The sums of a run's prompts. -/
structure TokenRow where
  strategyRunId : ℕ
  promptTokens : Option ℤ
  completionTokens : Option ℤ

/-- The token totals that the leaderboard keeps for a run. -/
structure RunTokens where
  promptTokens : ℤ
  completionTokens : ℤ

namespace Tables

variable (tables : Tables)

/-- The prompts of a run. -/
def promptsOf (runId : ℕ) : List PromptTokens :=
  tables.solvePrompts.filter (·.strategyRunId = runId)

/-- The grouped query: one row for each run with prompts. -/
def tokenRows : List TokenRow :=
  (tables.solvePrompts.map (·.strategyRunId)).dedup.map fun runId =>
    ⟨runId, sqlSum ((tables.promptsOf runId).map (·.promptTokens)),
      sqlSum ((tables.promptsOf runId).map (·.completionTokens))⟩

/-- The map filled from the grouped rows. -/
def tokensByRun : ℕ → Option RunTokens :=
  tables.tokenRows.foldl (fun map row => Function.update map row.strategyRunId
    (some ⟨row.promptTokens.getD 0, row.completionTokens.getD 0⟩)) fun _ => none

/-- The model of an id. -/
def modelById (id : ℕ) : Option SupportedModel := tables.supportedModels.find? (·.id = id)

/-- Every price row with its model, in the order of the ids. -/
def findPriceHistory : List PriceHistoryEntry :=
  tables.modelPrices.filterMap fun price =>
    (tables.modelById price.supportedModelId).map price.entry

/-- The map of price lists, filled entry by entry. -/
def priceHistoryByModel : String → Option (List PriceHistoryEntry) :=
  tables.findPriceHistory.foldl (fun map entry =>
    let key := leaderboardKey entry.strategyName (some entry.modelName)
    Function.update map key (some ((map key).getD [] ++ [entry]))) fun _ => none

/-- What the leaderboard's loop pushes for a run. -/
def solveCostUsd (run : PricedRun) : Option ℚ :=
  if run.modelName.getD "" = "" then none
  else
    match tables.tokensByRun run.id,
      priceAsOf (tables.priceHistoryByModel (leaderboardKey run.strategyName run.modelName))
        run.startedAt with
    | some tokens, some rate =>
      some (computeTokenCostUsd tokens.promptTokens tokens.completionTokens rate)
    | _, _ => none

/-- The solve costs of the leaderboard's rows, pushed run by run. -/
def leaderboardCosts (runs : List PricedRun) : String → List ℚ :=
  runs.foldl (fun costsUsd run =>
    let key := leaderboardKey run.strategyName run.modelName
    Function.update costsUsd key (costsUsd key ++ (tables.solveCostUsd run).toList)) fun _ => []

/-- The model a history row is joined with. -/
def joinedModel (strategyName : String) (run : PricedRun) : Option SupportedModel :=
  tables.supportedModels.find? fun sm =>
    sm.strategyName = strategyName ∧ some sm.modelName = run.modelName

/-- The price a history row is joined with: of the model's prices created by the start, the one
with the highest id. -/
def joinedPrice (strategyName : String) (run : PricedRun) : Option ModelPrice :=
  (tables.joinedModel strategyName run).bind fun sm =>
    (tables.modelPrices.filter fun mp =>
      mp.supportedModelId = sm.id ∧ mp.createdAt ≤ run.startedAt).getLast?

/-- The cost column of a history row. -/
def tokenCostUsd (strategyName : String) (run : PricedRun) : Option ℚ :=
  (tables.joinedPrice strategyName run).map fun mp =>
    ((sqlSum ((tables.promptsOf run.id).map (·.promptTokens))).getD 0 : ℤ) / 1000000 *
        mp.inputCostPerMillionTokens +
      ((sqlSum ((tables.promptsOf run.id).map (·.completionTokens))).getD 0 : ℤ) / 1000000 *
        mp.outputCostPerMillionTokens

/-- The rows of a strategy's history, with their costs. -/
def getRunHistory (runs : List PricedRun) (strategyName : String) :
    List (PricedRun × Option ℚ) :=
  (runs.filter (·.strategyName = strategyName)).map fun run =>
    (run, tables.tokenCostUsd strategyName run)

/-- The token totals of a run, a missing sum counted as zero. -/
def totals (runId : ℕ) : RunTokens :=
  ⟨(sqlSum ((tables.promptsOf runId).map (·.promptTokens))).getD 0,
    (sqlSum ((tables.promptsOf runId).map (·.completionTokens))).getD 0⟩

/-- The price rows of the models that share a key. -/
def keyPrices (key : String) : List ModelPrice :=
  tables.modelPrices.filter fun price =>
    (tables.modelById price.supportedModelId).any fun model =>
      leaderboardKey model.strategyName (some model.modelName) = key

/-- The price rows of a run's own model. -/
def ownPrices (run : PricedRun) : List ModelPrice :=
  match tables.joinedModel run.strategyName run with
  | none => []
  | some sm => tables.modelPrices.filter (·.supportedModelId = sm.id)

end Tables

/-- Writing a value for each key: a key that was written has its value. -/
theorem foldl_update {β : Type} (value : ℕ → β) (keys : List ℕ) (init : ℕ → Option β) (key : ℕ) :
    keys.foldl (fun map k => Function.update map k (some (value k))) init key =
      if key ∈ keys then some (value key) else init key := by
  induction keys generalizing init with
  | nil => simp
  | cons k keys ih =>
    rw [List.foldl_cons, ih]
    by_cases hk : key ∈ keys
    · simp [hk]
    · by_cases hkey : key = k
      · simp [hkey]
      · simp [hk, hkey]

/-- Grouping entries by key: a list that is there has the key's entries, in their order. -/
theorem foldl_group {α : Type} (key : α → String) (entries : List α)
    (init : String → Option (List α)) (k : String) :
    entries.foldl (fun map entry =>
        Function.update map (key entry) (some ((map (key entry)).getD [] ++ [entry]))) init k =
      if entries.filter (key · = k) = [] then init k
      else some ((init k).getD [] ++ entries.filter (key · = k)) := by
  induction entries generalizing init with
  | nil => simp
  | cons entry entries ih =>
    rw [List.foldl_cons, ih]
    by_cases hkey : key entry = k
    · subst hkey
      by_cases hrest : entries.filter (key · = key entry) = []
      · simp [hrest]
      · simp [hrest]
    · simp [hkey, Function.update_of_ne (Ne.symm hkey)]

namespace Tables

variable (tables : Tables)

/-- A run has an entry exactly when it has a prompt, and the entry is its totals. -/
theorem tokensByRun_eq (runId : ℕ) :
    tables.tokensByRun runId =
      if tables.promptsOf runId = [] then none else some (tables.totals runId) := by
  have hmem : runId ∈ (tables.solvePrompts.map (·.strategyRunId)).dedup ↔
      tables.promptsOf runId ≠ [] := by
    simp [promptsOf, List.filter_eq_nil_iff]
  rw [tokensByRun, tokenRows, List.foldl_map]
  refine (foldl_update tables.totals _ _ runId).trans ?_
  by_cases hnil : tables.promptsOf runId = []
  · simp [hmem, hnil]
  · simp [hmem, hnil]

/-- The scan of a key's entries is the walk along the key's price rows. -/
theorem scan_eq_walk (startedAt : ℤ) (key : String) (prices : List ModelPrice)
    (found : Option ModelPrice) :
    priceAsOf.scan startedAt (found.map ModelPrice.rate)
        ((prices.filterMap fun price =>
            (tables.modelById price.supportedModelId).map price.entry).filter
          fun entry => leaderboardKey entry.strategyName (some entry.modelName) = key) =
      (AsOf.walk (getTime ·.createdAt) (getTime startedAt) found
        (prices.filter fun price => (tables.modelById price.supportedModelId).any fun model =>
          leaderboardKey model.strategyName (some model.modelName) = key)).map
        ModelPrice.rate := by
  induction prices generalizing found with
  | nil => rfl
  | cons price prices ih =>
    cases hmodel : tables.modelById price.supportedModelId with
    | none => simpa [hmodel] using ih found
    | some model =>
      by_cases hkey : leaderboardKey model.strategyName (some model.modelName) = key
      · have hrate : (price.entry model).rate = price.rate := rfl
        have hnames : leaderboardKey (price.entry model).strategyName
            (some (price.entry model).modelName) = key := hkey
        have htime : (price.entry model).createdAt = price.createdAt := rfl
        simp only [List.filterMap_cons, List.filter_cons, hmodel, Option.map_some, hnames,
          Option.any_some, hkey, decide_true, ↓reduceIte, priceAsOf.scan, AsOf.walk, htime]
        by_cases hlate : getTime startedAt < getTime price.createdAt
        · simp [hlate]
        · rw [if_neg (by simpa using hlate), if_neg hlate, hrate]
          exact ih (some price)
      · have hnames : ¬ leaderboardKey (price.entry model).strategyName
            (some (price.entry model).modelName) = key := hkey
        simpa [hmodel, hkey, hnames] using ih found

/-- The price in memory, by the walk along the key's price rows. -/
theorem priceAsOf_eq (key : String) (startedAt : ℤ) :
    priceAsOf (tables.priceHistoryByModel key) startedAt =
      (AsOf.walk (getTime ·.createdAt) (getTime startedAt) none (tables.keyPrices key)).map
        ModelPrice.rate := by
  have hscan := tables.scan_eq_walk startedAt key tables.modelPrices none
  rw [priceHistoryByModel, foldl_group
    (fun entry : PriceHistoryEntry => leaderboardKey entry.strategyName (some entry.modelName)),
    keyPrices, ← hscan, ← findPriceHistory]
  split
  · rename_i hnil
    rw [hnil]
    rfl
  · rfl

/-- The history's price is the latest of the model's own rows. -/
theorem joinedPrice_eq (run : PricedRun) :
    tables.joinedPrice run.strategyName run =
      AsOf.latest (·.createdAt) run.startedAt (tables.ownPrices run) := by
  unfold joinedPrice ownPrices AsOf.latest
  cases tables.joinedModel run.strategyName run with
  | none => rfl
  | some sm => simp [List.filter_filter, Bool.and_comm]

/-- The history's cost, from the run's totals. -/
theorem tokenCostUsd_eq (run : PricedRun) :
    tables.tokenCostUsd run.strategyName run =
      (AsOf.latest (·.createdAt) run.startedAt (tables.ownPrices run)).map fun price =>
        computeTokenCostUsd (tables.totals run.id).promptTokens
          (tables.totals run.id).completionTokens price.rate := by
  rw [tokenCostUsd, joinedPrice_eq]
  rfl

/-- The leaderboard prices a run: it has a stored prompt and a model name that is not empty. -/
def Priced (run : PricedRun) : Prop :=
  tables.promptsOf run.id ≠ [] ∧ run.modelName.getD "" ≠ ""

/-- The leaderboard's cost of a run that it prices. -/
theorem solveCostUsd_of_priced {run : PricedRun} (h : tables.Priced run) :
    tables.solveCostUsd run =
      (AsOf.walk (getTime ·.createdAt) (getTime run.startedAt) none
        (tables.keyPrices (leaderboardKey run.strategyName run.modelName))).map fun price =>
          computeTokenCostUsd (tables.totals run.id).promptTokens
            (tables.totals run.id).completionTokens price.rate := by
  obtain ⟨hprompts, hname⟩ := h
  rw [solveCostUsd, if_neg hname, tokensByRun_eq, if_neg hprompts, priceAsOf_eq]
  cases AsOf.walk (getTime ·.createdAt) (getTime run.startedAt) none
    (tables.keyPrices (leaderboardKey run.strategyName run.modelName)) <;> rfl

/-- A run that the leaderboard does not price has no cost there. -/
theorem solveCostUsd_of_not_priced {run : PricedRun} (h : ¬ tables.Priced run) :
    tables.solveCostUsd run = none := by
  by_cases hname : run.modelName.getD "" = ""
  · rw [solveCostUsd, if_pos hname]
  · have hprompts : tables.promptsOf run.id = [] := by
      by_contra hprompts
      exact h ⟨hprompts, hname⟩
    rw [solveCostUsd, if_neg hname, tokensByRun_eq, if_pos hprompts]

/-- Two prices charge a run's tokens alike. -/
def ChargeAlike (run : PricedRun) (p q : ModelPrice) : Prop :=
  (tables.totals run.id).promptTokens *
      (p.inputCostPerMillionTokens - q.inputCostPerMillionTokens) +
    (tables.totals run.id).completionTokens *
      (p.outputCostPerMillionTokens - q.outputCostPerMillionTokens) = 0

/-- Prices that charge alike give one cost. -/
theorem chargeAlike_iff (run : PricedRun) (p q : ModelPrice) :
    tables.ChargeAlike run p q ↔
      computeTokenCostUsd (tables.totals run.id).promptTokens
          (tables.totals run.id).completionTokens p.rate =
        computeTokenCostUsd (tables.totals run.id).promptTokens
          (tables.totals run.id).completionTokens q.rate := by
  unfold ChargeAlike computeTokenCostUsd ModelPrice.rate
  constructor <;> intro h <;> linarith

/-- The stored rows on which both computations come out the same.  Of a run that is not priced, no
price row of its model was there at its start.  Of one that is, the key's price row before the
first that is later than the start's millisecond, and the last of the model's rows created by the
start, charge alike, or neither is there. -/
structure CostsAgree (run : PricedRun) : Prop where
  unpriced : ¬ tables.Priced run →
    ∀ price ∈ tables.ownPrices run, run.startedAt < price.createdAt
  priced : tables.Priced run → ∀ p,
    AsOf.StopsAfter (getTime ·.createdAt) (getTime run.startedAt)
      (tables.keyPrices (leaderboardKey run.strategyName run.modelName)) p →
    ∃ q, AsOf.LastInForce (·.createdAt) run.startedAt (tables.ownPrices run) q ∧
      tables.ChargeAlike run p q
  inForce : tables.Priced run → ∀ q,
    AsOf.LastInForce (·.createdAt) run.startedAt (tables.ownPrices run) q →
    ∃ p, AsOf.StopsAfter (getTime ·.createdAt) (getTime run.startedAt)
      (tables.keyPrices (leaderboardKey run.strategyName run.modelName)) p

/-- On such rows the two computations come out the same. -/
theorem CostsAgree.solveCostUsd_eq {run : PricedRun} (h : tables.CostsAgree run) :
    tables.solveCostUsd run = tables.tokenCostUsd run.strategyName run := by
  rw [tokenCostUsd_eq]
  by_cases hpriced : tables.Priced run
  · rw [solveCostUsd_of_priced tables hpriced]
    cases hwalk : AsOf.walk (getTime ·.createdAt) (getTime run.startedAt) none
        (tables.keyPrices (leaderboardKey run.strategyName run.modelName)) with
    | some p =>
      obtain ⟨q, hq, halike⟩ := h.priced hpriced p ((AsOf.walk_none_eq_some_iff _ _ _ p).mp hwalk)
      rw [(AsOf.latest_eq_some_iff _ _ _ q).mpr hq, Option.map_some, Option.map_some,
        (tables.chargeAlike_iff run p q).mp halike]
    | none =>
      cases hlatest : AsOf.latest (·.createdAt) run.startedAt (tables.ownPrices run) with
      | none => rfl
      | some q =>
        obtain ⟨p, hp⟩ := h.inForce hpriced q ((AsOf.latest_eq_some_iff _ _ _ q).mp hlatest)
        rw [(AsOf.walk_none_eq_some_iff _ _ _ p).mpr hp] at hwalk
        cases hwalk
  · rw [solveCostUsd_of_not_priced tables hpriced, eq_comm, Option.map_eq_none_iff, AsOf.latest,
      List.getLast?_eq_none_iff, List.filter_eq_nil_iff]
    intro price hprice
    simpa using h.unpriced hpriced price hprice

/-- Rows on which the two computations come out the same are such rows. -/
theorem CostsAgree.of_solveCostUsd_eq {run : PricedRun}
    (h : tables.solveCostUsd run = tables.tokenCostUsd run.strategyName run) :
    tables.CostsAgree run := by
  rw [tokenCostUsd_eq] at h
  by_cases hpriced : tables.Priced run
  · rw [solveCostUsd_of_priced tables hpriced] at h
    refine ⟨fun hnot => absurd hpriced hnot, fun _ p hp => ?_, fun _ q hq => ?_⟩
    · rw [(AsOf.walk_none_eq_some_iff _ _ _ p).mpr hp, Option.map_some] at h
      obtain ⟨q, hq, hcost⟩ := Option.map_eq_some_iff.mp h.symm
      exact ⟨q, (AsOf.latest_eq_some_iff _ _ _ q).mp hq,
        (tables.chargeAlike_iff run p q).mpr hcost.symm⟩
    · rw [(AsOf.latest_eq_some_iff _ _ _ q).mpr hq, Option.map_some] at h
      obtain ⟨p, hp, -⟩ := Option.map_eq_some_iff.mp h
      exact ⟨p, (AsOf.walk_none_eq_some_iff _ _ _ p).mp hp⟩
  · rw [solveCostUsd_of_not_priced tables hpriced, eq_comm, Option.map_eq_none_iff, AsOf.latest,
      List.getLast?_eq_none_iff, List.filter_eq_nil_iff] at h
    exact ⟨fun _ price hprice => by simpa using h price hprice,
      fun hp => absurd hp hpriced, fun hp => absurd hp hpriced⟩

/-- The leaderboard includes the cost that the run history reports, and none when it reports none,
exactly on the rows on which the two agree. -/
theorem solveCostUsd_eq_tokenCostUsd_iff (run : PricedRun) :
    tables.solveCostUsd run = tables.tokenCostUsd run.strategyName run ↔
      tables.CostsAgree run :=
  ⟨CostsAgree.of_solveCostUsd_eq tables, CostsAgree.solveCostUsd_eq tables⟩

/-- A priced model's table with a run that never stored a prompt. -/
def withoutPrompts : Tables where
  supportedModels := [⟨1, "llm-openai", "gpt-4.1-nano"⟩]
  modelPrices := [⟨1, 1, 1, 4, 0⟩]
  solvePrompts := []
  model_ids := by decide
  model_names := by decide
  price_ids := by simp

/-- Without a prompt the leaderboard has no cost for the run and the history has the cost zero. -/
theorem run_without_prompts_costs_zero_in_history :
    ¬ ∀ (tables : Tables) (run : PricedRun), run.modelName.isSome →
      tables.solveCostUsd run = tables.tokenCostUsd run.strategyName run := by
  intro h
  have hrun := h withoutPrompts ⟨1, "llm-openai", some "gpt-4.1-nano", 1000⟩ rfl
  have hleaderboard : withoutPrompts.solveCostUsd
      ⟨1, "llm-openai", some "gpt-4.1-nano", 1000⟩ = none := rfl
  rw [hleaderboard] at hrun
  have hhistory : (withoutPrompts.tokenCostUsd "llm-openai"
      ⟨1, "llm-openai", some "gpt-4.1-nano", 1000⟩).isSome := by decide
  rw [← hrun] at hhistory
  cases hhistory

/-- Where a key is one model's, its price rows are the model's own. -/
theorem keyPrices_eq_ownPrices {run : PricedRun}
    (hkey : ∀ model ∈ tables.supportedModels,
      leaderboardKey model.strategyName (some model.modelName) =
        leaderboardKey run.strategyName run.modelName →
      model.strategyName = run.strategyName ∧ some model.modelName = run.modelName) :
    tables.keyPrices (leaderboardKey run.strategyName run.modelName) = tables.ownPrices run := by
  have hnames : ∀ model ∈ tables.supportedModels, ∀ other ∈ tables.supportedModels,
      model.strategyName = other.strategyName → model.modelName = other.modelName →
      model = other := by
    intro model hmodel other hother hstrategy hmodelName
    exact List.inj_on_of_nodup_map tables.model_names hmodel hother (by simp [*])
  have hjoined : ∀ sm, tables.joinedModel run.strategyName run = some sm ↔
      sm ∈ tables.supportedModels ∧ sm.strategyName = run.strategyName ∧
        some sm.modelName = run.modelName := by
    intro sm
    constructor
    · intro h
      exact ⟨List.mem_of_find?_eq_some h, by simpa using List.find?_some h⟩
    · rintro ⟨hsm, hstrategy, hmodel⟩
      cases h : tables.joinedModel run.strategyName run with
      | none =>
        have hnone := List.find?_eq_none.mp h sm hsm
        simp [hstrategy, hmodel] at hnone
      | some other =>
        have hother : other.strategyName = run.strategyName ∧
            some other.modelName = run.modelName := by simpa using List.find?_some h
        rw [hnames other (List.mem_of_find?_eq_some h) sm hsm (hother.1.trans hstrategy.symm)
          (Option.some.inj (hother.2.trans hmodel.symm))]
  have hbyId : ∀ id model, tables.modelById id = some model ↔
      model ∈ tables.supportedModels ∧ model.id = id := by
    intro id model
    constructor
    · intro h
      exact ⟨List.mem_of_find?_eq_some h, by simpa using List.find?_some h⟩
    · rintro ⟨hmodel, rfl⟩
      cases h : tables.modelById model.id with
      | none =>
        have hnone := List.find?_eq_none.mp h model hmodel
        simp at hnone
      | some other =>
        have hother : other.id = model.id := by simpa using List.find?_some h
        rw [List.inj_on_of_nodup_map tables.model_ids (List.mem_of_find?_eq_some h) hmodel hother]
  unfold keyPrices ownPrices
  cases hsm : tables.joinedModel run.strategyName run with
  | none =>
    rw [List.filter_eq_nil_iff]
    intro price _ hany
    obtain ⟨model, hmodel, hmodelKey⟩ := Option.any_eq_true _ _ |>.mp hany
    obtain ⟨hmem, -⟩ := (hbyId _ _).mp hmodel
    have hown := hkey model hmem (by simpa using hmodelKey)
    rw [(hjoined model).mpr ⟨hmem, hown⟩] at hsm
    cases hsm
  | some sm =>
    obtain ⟨hmem, hstrategy, hmodelName⟩ := (hjoined sm).mp hsm
    refine List.filter_congr fun price _ => ?_
    rw [Bool.eq_iff_iff, Option.any_eq_true, decide_eq_true_eq]
    constructor
    · rintro ⟨model, hmodel, hmodelKey⟩
      obtain ⟨hmodelMem, hid⟩ := (hbyId _ _).mp hmodel
      have hown := hkey model hmodelMem (by simpa using hmodelKey)
      rw [← hid, hnames model hmodelMem sm hmem (hown.1.trans hstrategy.symm)
        (Option.some.inj (hown.2.trans hmodelName.symm))]
    · intro hid
      refine ⟨sm, (hbyId _ _).mpr ⟨hmem, hid.symm⟩, ?_⟩
      simp [hstrategy, hmodelName]

/-- A priced run costs the same in both places when its key is one model's, the model's prices were
created in the order of their ids, and none was created after the run's start within the start's
millisecond. -/
theorem costs_agree_of_ordered {run : PricedRun} (hpriced : tables.Priced run)
    (hkey : ∀ model ∈ tables.supportedModels,
      leaderboardKey model.strategyName (some model.modelName) =
        leaderboardKey run.strategyName run.modelName →
      model.strategyName = run.strategyName ∧ some model.modelName = run.modelName)
    (hordered : (tables.ownPrices run).Pairwise (·.createdAt ≤ ·.createdAt))
    (hmilli : ∀ price ∈ tables.ownPrices run, run.startedAt < price.createdAt →
      getTime run.startedAt < getTime price.createdAt) :
    tables.solveCostUsd run = tables.tokenCostUsd run.strategyName run := by
  have hside : ∀ price ∈ tables.ownPrices run,
      (getTime run.startedAt < getTime price.createdAt ↔ run.startedAt < price.createdAt) := by
    intro price hprice
    refine ⟨fun h => ?_, hmilli price hprice⟩
    unfold getTime at h
    omega
  rw [solveCostUsd_of_priced tables hpriced, tokenCostUsd_eq, keyPrices_eq_ownPrices tables hkey,
    AsOf.walk_congr _ _ hside, AsOf.walk_eq_latest _ _ hordered]

/-- A leaderboard row lists the solve costs of its runs, in their order. -/
theorem leaderboardCosts_eq (runs : List PricedRun) (key : String) :
    tables.leaderboardCosts runs key =
      (runs.filter fun run => leaderboardKey run.strategyName run.modelName = key).filterMap
        tables.solveCostUsd := by
  have hgen : ∀ (costs : String → List ℚ),
      runs.foldl (fun costsUsd run =>
          Function.update costsUsd (leaderboardKey run.strategyName run.modelName)
            (costsUsd (leaderboardKey run.strategyName run.modelName) ++
              (tables.solveCostUsd run).toList)) costs key =
        costs key ++ (runs.filter fun run =>
          leaderboardKey run.strategyName run.modelName = key).filterMap tables.solveCostUsd := by
    induction runs with
    | nil => simp
    | cons run runs ih =>
      intro costs
      rw [List.foldl_cons, ih]
      by_cases hrun : leaderboardKey run.strategyName run.modelName = key
      · cases hcost : tables.solveCostUsd run with
        | none => simp [hrun, hcost]
        | some cost => simp [hrun, hcost]
      · simp [hrun, Function.update_of_ne (Ne.symm hrun)]
  exact hgen fun _ => []

/-- A leaderboard row of one strategy lists the costs that the strategy's history reports for the
row's runs, when the stored rows of each agree. -/
theorem leaderboardCosts_eq_history {runs : List PricedRun} {strategyName key : String}
    (hrow : ∀ run ∈ runs, leaderboardKey run.strategyName run.modelName = key →
      run.strategyName = strategyName ∧ tables.CostsAgree run) :
    tables.leaderboardCosts runs key =
      ((tables.getRunHistory runs strategyName).filter fun row =>
        leaderboardKey row.1.strategyName row.1.modelName = key).filterMap (·.2) := by
  rw [leaderboardCosts_eq, getRunHistory]
  induction runs with
  | nil => rfl
  | cons run runs ih =>
    have hrest := ih fun r hr => hrow r (List.mem_cons_of_mem _ hr)
    by_cases hrun : leaderboardKey run.strategyName run.modelName = key
    · obtain ⟨rfl, hagree⟩ := hrow run List.mem_cons_self hrun
      simp [hrun, hagree.solveCostUsd_eq, hrest, List.filterMap_cons]
    · by_cases hstrategy : run.strategyName = strategyName
      · subst hstrategy
        simpa [hrun] using hrest
      · simpa [hrun, hstrategy] using hrest

end Tables

end Connections.Leaderboard

import Connections.Budget.Ledger
import Connections.Library.KeyedTable
import Connections.Library.LeastServed
import Mathlib.Data.Finset.Card
import Mathlib.Data.List.Sort

/-!
# Which model a dispatch tick serves next

The models of a provider or of a free-tier program as the table of supported models lists them,
their trials of today, from the queue and from the runs, and the least allocated one among those
that a tick has not excluded.
-/

namespace Connections

open LeastServed

/-- The columns of a supported model besides its unique key, the strategy's and the model's
names. -/
structure SupportedModelColumns where
  supported : Bool
  freeTier : Option String
  deriving DecidableEq, Repr

/-- The table of supported models, unique by strategy and model name. -/
abbrev SupportedModelTable := KeyedTable.Table (String × String) SupportedModelColumns

/-- The `freeTier` column of a free-tier program. -/
def FreeTierId.column : FreeTierId → String
  | .flagship => "flagship"
  | .mini => "mini"

namespace SupportedModelTable

/-- A row of the table. -/
abbrev Row := KeyedTable.Row (String × String) SupportedModelColumns

/-- The names of the supported models that a query asks for, by id. -/
def findModelNames (asked : Row → Bool) (table : SupportedModelTable) : List String :=
  ((table.rows.filter fun row => row.value.supported && asked row).insertionSort
    (·.id ≤ ·.id)).map fun row => row.key.2

/-- The models of a free-tier program, under whatever strategy. -/
def findModelNamesByFreeTier (table : SupportedModelTable) (tier : FreeTierId) : List String :=
  findModelNames (fun row => row.value.freeTier = some tier.column) table

/-- The models of a strategy. -/
def findModelNamesByStrategy (table : SupportedModelTable) (strategyName : String) :
    List String :=
  findModelNames (fun row => row.key.1 = strategyName) table

/-- The names are distinct just when no two of the rows share one. -/
theorem nodup_findModelNames {asked : Row → Bool} {table : SupportedModelTable} :
    (findModelNames asked table).Nodup ↔
      ∀ row ∈ table.rows, row.value.supported → asked row →
        ∀ other ∈ table.rows, other.value.supported → asked other →
          row.key.2 = other.key.2 → row = other := by
  have hrows : (table.rows.filter fun row => row.value.supported && asked row).Nodup :=
    table.ids_nodup.of_map.filter _
  have hsort := (List.perm_insertionSort (fun row other : Row => row.id ≤ other.id)
    (table.rows.filter fun row => row.value.supported && asked row)).map fun row => row.key.2
  rw [findModelNames, hsort.nodup_iff, List.nodup_map_iff_inj_on hrows]
  simp only [List.mem_filter, Bool.and_eq_true]
  constructor
  · intro h row hrow hsup hask other hother hsup' hask' hname
    exact h row ⟨hrow, hsup, hask⟩ other ⟨hother, hsup', hask'⟩ hname
  · rintro h row ⟨hrow, hsup, hask⟩ other ⟨hother, hsup', hask'⟩ hname
    exact h row hrow hsup hask other hother hsup' hask' hname

/-- A strategy's models are distinct, by the unique key. -/
theorem nodup_findModelNamesByStrategy (table : SupportedModelTable) (strategyName : String) :
    (table.findModelNamesByStrategy strategyName).Nodup := by
  refine nodup_findModelNames.mpr ?_
  intro row hrow _ hask other hother _ hask' hname
  apply table.eq_of_key_eq hrow hother
  exact Prod.ext ((of_decide_eq_true hask).trans (of_decide_eq_true hask').symm) hname

end SupportedModelTable

/-- Counts for the given models and no others. -/
structure Allocation (models : List String) where
  counts : List (String × ℕ)
  nodup : (keys counts).Nodup
  mem_keys : ∀ model, model ∈ keys counts ↔ model ∈ models

/-- One for each of the names that is among the models. -/
def ones (models names : List String) : List (String × ℕ) :=
  (names.filter (· ∈ models)).map fun model => (model, 1)

theorem mem_of_mem_keys_ones {models names : List String} {model : String}
    (h : model ∈ keys (ones models names)) : model ∈ models := by
  simp only [ones, keys, List.map_map, List.mem_map, List.mem_filter, Function.comp_def] at h
  obtain ⟨name, ⟨-, hmem⟩, rfl⟩ := h
  exact of_decide_eq_true hmem

namespace Allocation

variable {models : List String}

/-- Count names on top of an allocation; a name that is not among the models is passed over. -/
def countOn (allocation : Allocation models) (names : List String) : Allocation models where
  counts := addAll (ones models names) allocation.counts
  nodup := nodup_keys_addAll _ allocation.nodup
  mem_keys := by
    intro model
    rw [mem_keys_addAll, allocation.mem_keys]
    exact ⟨fun h => h.elim mem_of_mem_keys_ones id, .inr⟩

/-- The waiting and delayed jobs of every model; a job without a model counts for none. -/
def queuedCountsByModel (models : List String) (jobs : List (Option String)) :
    Allocation models :=
  countOn ⟨zeros models, nodup_keys_zeros _, fun _ => mem_keys_zeros⟩
    ((jobs.filterMap id).filter (· ≠ ""))

/-- The trials of today: the jobs on the queue and the runs started since midnight. -/
def countTodayDispatchByModel (models : List String) (jobs : List (Option String))
    (startedToday : List String) : Allocation models :=
  (queuedCountsByModel models jobs).countOn startedToday

/-- The trials in flight: the jobs on the queue and the running runs. -/
def countInFlightByModel (models : List String) (jobs : List (Option String))
    (running : List String) : Allocation models :=
  (queuedCountsByModel models jobs).countOn running

end Allocation

/-- The model with the fewest trials so far among those not excluded; without one it throws. -/
def leastAllocatedModel (message : String) (allocation : List (String × ℕ))
    (excluded : Finset String) : Except String String :=
  match least excluded allocation with
  | some entry => .ok entry.1
  | none => .error message

/-- What becomes of one attempt to queue a trial of a model. -/
inductive DispatchAttempt
  | lookupFailed
  | noUnrunPuzzle
  | enqueueFailed
  /-- The dispatch goes through; a trial of that puzzle and model still pending stands for it. -/
  | queued
  deriving DecidableEq, Repr

/-- A model that is found is one of the allocation's, not excluded, and least allocated. -/
theorem leastAllocatedModel_ok {message : String} {allocation : List (String × ℕ)}
    {excluded : Finset String} {model : String}
    (h : leastAllocatedModel message allocation excluded = .ok model) :
    ∃ n, least excluded allocation = some (model, n) ∧ (model, n) ∈ allocation ∧
      model ∉ excluded := by
  unfold leastAllocatedModel at h
  cases hleast : least excluded allocation with
  | none => simp [hleast] at h
  | some entry =>
    simp only [hleast, Except.ok.injEq] at h
    subst h
    obtain ⟨hmem, hnot, -⟩ := least_eq_some hleast
    exact ⟨entry.2, rfl, hmem, hnot⟩

/-- It throws just when every model of the allocation is excluded, under its own text. -/
theorem leastAllocatedModel_error {message text : String} {allocation : List (String × ℕ)}
    {excluded : Finset String} :
    leastAllocatedModel message allocation excluded = .error text ↔
      text = message ∧ ∀ model ∈ keys allocation, model ∈ excluded := by
  unfold leastAllocatedModel
  rw [← least_eq_none]
  cases hleast : least excluded allocation with
  | none => simp [eq_comm]
  | some entry => simp

/-- Fewer names excluded than there are distinct models leave one to serve. -/
theorem exists_leastAllocatedModel {models : List String} (hmodels : models.Nodup)
    {allocation : List (String × ℕ)} (hkeys : ∀ model, model ∈ keys allocation ↔ model ∈ models)
    {excluded : Finset String} (h : excluded.card < models.length) (message : String) :
    ∃ model, leastAllocatedModel message allocation excluded = .ok model := by
  cases hleast : leastAllocatedModel message allocation excluded with
  | ok model => exact ⟨model, rfl⟩
  | error text =>
    have hall := (leastAllocatedModel_error.mp hleast).2
    have hsub : models.toFinset ⊆ excluded := by
      intro model hmem
      exact hall model ((hkeys model).mpr (List.mem_toFinset.mp hmem))
    have hcard := Finset.card_le_card hsub
    rw [List.toFinset_card_of_nodup hmodels] at hcard
    omega

end Connections

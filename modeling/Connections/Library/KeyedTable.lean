import Mathlib.Data.List.Nodup

/-!
# Tables with a generated id and a unique key

Every row has an id that is never given out again and a key that no other row has.  An upsert
overwrites the row of its key and keeps that row's id; a removal names rows by id, so it takes the
row that carries the id by then.
-/

namespace KeyedTable

variable {κ ν : Type*}

/-- A row: its id, its key and its other columns. -/
structure Row (κ ν : Type*) where
  id : ℕ
  key : κ
  value : ν
  deriving DecidableEq, Repr

/-- Rows under distinct ids and distinct keys, and the next id. -/
structure Table (κ ν : Type*) where
  rows : List (Row κ ν)
  nextId : ℕ
  ids_nodup : (rows.map (·.id)).Nodup
  keys_nodup : (rows.map (·.key)).Nodup
  ids_lt : ∀ row ∈ rows, row.id < nextId

namespace Table

/-- No rows. -/
def empty : Table κ ν := ⟨[], 0, List.nodup_nil, List.nodup_nil, by simp⟩

/-- An id has one row. -/
theorem eq_of_id_eq (t : Table κ ν) {r s : Row κ ν} (hr : r ∈ t.rows) (hs : s ∈ t.rows)
    (h : r.id = s.id) : r = s :=
  List.inj_on_of_nodup_map t.ids_nodup hr hs h

/-- A key has one row. -/
theorem eq_of_key_eq (t : Table κ ν) {r s : Row κ ν} (hr : r ∈ t.rows) (hs : s ∈ t.rows)
    (h : r.key = s.key) : r = s :=
  List.inj_on_of_nodup_map t.keys_nodup hr hs h

/-- Keep the rows that satisfy a test. -/
def filter (t : Table κ ν) (p : Row κ ν → Bool) : Table κ ν where
  rows := t.rows.filter p
  nextId := t.nextId
  ids_nodup := t.ids_nodup.sublist (List.filter_sublist.map _)
  keys_nodup := t.keys_nodup.sublist (List.filter_sublist.map _)
  ids_lt := fun row h => t.ids_lt row (List.mem_of_mem_filter h)

/-- Remove the rows under the given ids. -/
def remove (t : Table κ ν) (ids : List ℕ) : Table κ ν := t.filter (·.id ∉ ids)

section Upsert

variable [DecidableEq κ]

/-- The row of a key. -/
def lookup (t : Table κ ν) (key : κ) : Option (Row κ ν) := t.rows.find? (·.key = key)

theorem lookup_eq_some {t : Table κ ν} {key : κ} {row : Row κ ν} :
    t.lookup key = some row ↔ row ∈ t.rows ∧ row.key = key := by
  constructor
  · intro h
    exact ⟨List.mem_of_find?_eq_some h, by simpa using List.find?_some h⟩
  · rintro ⟨hmem, rfl⟩
    cases h : t.lookup row.key with
    | none => exact absurd (decide_eq_true rfl) (List.find?_eq_none.mp h row hmem)
    | some other =>
      have hother : other ∈ t.rows := List.mem_of_find?_eq_some h
      have hkey : other.key = row.key := by simpa using List.find?_some h
      rw [t.eq_of_key_eq hother hmem hkey]

theorem lookup_eq_none {t : Table κ ν} {key : κ} :
    t.lookup key = none ↔ ∀ row ∈ t.rows, row.key ≠ key := by
  simp [lookup, List.find?_eq_none]

/-- A row with its columns overwritten. -/
def overwrite (key : κ) (value : ν) (row : Row κ ν) : Row κ ν :=
  if row.key = key then { row with value := value } else row

@[simp] theorem overwrite_id (key : κ) (value : ν) (row : Row κ ν) :
    (overwrite key value row).id = row.id := by
  unfold overwrite
  split <;> rfl

@[simp] theorem overwrite_key (key : κ) (value : ν) (row : Row κ ν) :
    (overwrite key value row).key = row.key := by
  unfold overwrite
  split <;> rfl

/-- Write the columns of a key: over its row, or into a new one. -/
def upsert (t : Table κ ν) (key : κ) (value : ν) : Table κ ν :=
  if h : ∃ row ∈ t.rows, row.key = key then
    { rows := t.rows.map (overwrite key value)
      nextId := t.nextId
      ids_nodup := by simpa [List.map_map, Function.comp_def] using t.ids_nodup
      keys_nodup := by simpa [List.map_map, Function.comp_def] using t.keys_nodup
      ids_lt := by simpa using t.ids_lt }
  else
    { rows := ⟨t.nextId, key, value⟩ :: t.rows
      nextId := t.nextId + 1
      ids_nodup := by
        refine List.nodup_cons.mpr ⟨fun hmem => ?_, t.ids_nodup⟩
        obtain ⟨row, hrow, hid⟩ := List.mem_map.mp hmem
        exact absurd (t.ids_lt row hrow) (Nat.not_lt.mpr (Nat.le_of_eq hid.symm))
      keys_nodup := by
        refine List.nodup_cons.mpr ⟨fun hmem => h ?_, t.keys_nodup⟩
        obtain ⟨row, hrow, hkey⟩ := List.mem_map.mp hmem
        exact ⟨row, hrow, hkey⟩
      ids_lt := by
        rintro row (_ | ⟨_, hrow⟩)
        · exact Nat.lt_succ_self _
        · exact Nat.lt_succ_of_lt (t.ids_lt row hrow) }

/-- After an upsert the key has the columns written, under the id it had if it had a row. -/
theorem lookup_upsert_self (t : Table κ ν) (key : κ) (value : ν) :
    ∃ id, (t.upsert key value).lookup key = some ⟨id, key, value⟩ ∧
      ∀ row, t.lookup key = some row → id = row.id := by
  unfold upsert
  split
  · rename_i h
    obtain ⟨row, hrow, hkey⟩ := h
    refine ⟨row.id, lookup_eq_some.mpr ⟨?_, rfl⟩, ?_⟩
    · refine List.mem_map.mpr ⟨row, hrow, ?_⟩
      simp [overwrite, ← hkey]
    · intro other hother
      obtain ⟨hmem, hotherKey⟩ := lookup_eq_some.mp hother
      rw [t.eq_of_key_eq hrow hmem (hkey.trans hotherKey.symm)]
  · rename_i h
    refine ⟨t.nextId, lookup_eq_some.mpr ⟨List.mem_cons_self, rfl⟩, ?_⟩
    intro row hrow
    obtain ⟨hmem, hkey⟩ := lookup_eq_some.mp hrow
    exact absurd ⟨row, hmem, hkey⟩ h

/-- An upsert leaves the rows of other keys alone. -/
theorem lookup_upsert_of_ne (t : Table κ ν) {key other : κ} (value : ν) (h : other ≠ key) :
    (t.upsert key value).lookup other = t.lookup other := by
  unfold upsert
  split
  · ext row
    simp only [lookup_eq_some, List.mem_map]
    constructor
    · rintro ⟨⟨old, hold, rfl⟩, hkey⟩
      have hne : old.key ≠ key := fun heq => h (hkey.symm.trans (by simpa using heq))
      simpa [overwrite, hne] using And.intro hold (by simpa using hkey)
    · rintro ⟨hrow, rfl⟩
      exact ⟨⟨row, hrow, by simp [overwrite, h]⟩, rfl⟩
  · simp [lookup, h.symm]

/-- A removal spares the row of a key whose id it does not name. -/
theorem lookup_remove_of_not_mem {t : Table κ ν} {key : κ} {row : Row κ ν} {ids : List ℕ}
    (hrow : t.lookup key = some row) (h : row.id ∉ ids) :
    (t.remove ids).lookup key = some row := by
  obtain ⟨hmem, hkey⟩ := lookup_eq_some.mp hrow
  exact lookup_eq_some.mpr ⟨List.mem_filter.mpr ⟨hmem, by simpa using h⟩, hkey⟩

/-- A removal that names the id of a key's row leaves the key without one. -/
theorem lookup_remove_of_mem {t : Table κ ν} {key : κ} {row : Row κ ν} {ids : List ℕ}
    (hrow : t.lookup key = some row) (h : row.id ∈ ids) : (t.remove ids).lookup key = none := by
  rw [lookup_eq_none]
  intro other hother hkey
  obtain ⟨hmem, hout⟩ := List.mem_filter.mp hother
  obtain rfl := t.eq_of_key_eq hmem (lookup_eq_some.mp hrow).1
    (hkey.trans (lookup_eq_some.mp hrow).2.symm)
  simp [h] at hout

/-- Insert a row under a given id; an id or a key that is taken refuses it. -/
def insert (t : Table κ ν) (id : ℕ) (key : κ) (value : ν) : Option (Table κ ν) :=
  if h : ∀ row ∈ t.rows, row.id ≠ id ∧ row.key ≠ key then
    some
      { rows := ⟨id, key, value⟩ :: t.rows
        nextId := max t.nextId (id + 1)
        ids_nodup := by
          refine List.nodup_cons.mpr ⟨fun hmem => ?_, t.ids_nodup⟩
          obtain ⟨row, hrow, hid⟩ := List.mem_map.mp hmem
          exact (h row hrow).1 hid
        keys_nodup := by
          refine List.nodup_cons.mpr ⟨fun hmem => ?_, t.keys_nodup⟩
          obtain ⟨row, hrow, hkey⟩ := List.mem_map.mp hmem
          exact (h row hrow).2 hkey
        ids_lt := by
          rintro row (_ | ⟨_, hrow⟩)
          · exact Nat.lt_of_succ_le (Nat.le_max_right _ _)
          · exact Nat.lt_of_lt_of_le (t.ids_lt row hrow) (Nat.le_max_left _ _) }
  else none

/-- An insertion that is not refused adds its row to rows without its id and its key. -/
theorem insert_eq_some {t t' : Table κ ν} {id : ℕ} {key : κ} {value : ν}
    (h : t.insert id key value = some t') :
    t'.rows = ⟨id, key, value⟩ :: t.rows ∧ t'.nextId = max t.nextId (id + 1) ∧
      ∀ row ∈ t.rows, row.id ≠ id ∧ row.key ≠ key := by
  unfold insert at h
  split at h
  · rename_i hfree
    cases h
    exact ⟨rfl, rfl, hfree⟩
  · cases h

/-- An insertion under the next id is refused only for a key that has a row. -/
theorem insert_nextId_isSome {t : Table κ ν} {key : κ} {value : ν}
    (h : ∀ row ∈ t.rows, row.key ≠ key) : (t.insert t.nextId key value).isSome = true := by
  unfold insert
  rw [dif_pos fun row hrow => ⟨Nat.ne_of_lt (t.ids_lt row hrow), h row hrow⟩]
  rfl

end Upsert

/-- A row with its columns changed, when it is the one under an id. -/
def changeAt (id : ℕ) (change : ν → ν) (row : Row κ ν) : Row κ ν :=
  if row.id = id then { row with value := change row.value } else row

@[simp] theorem changeAt_id (id : ℕ) (change : ν → ν) (row : Row κ ν) :
    (changeAt id change row).id = row.id := by
  unfold changeAt
  split <;> rfl

@[simp] theorem changeAt_key (id : ℕ) (change : ν → ν) (row : Row κ ν) :
    (changeAt id change row).key = row.key := by
  unfold changeAt
  split <;> rfl

/-- Change the columns of the row under an id. -/
def update (t : Table κ ν) (id : ℕ) (change : ν → ν) : Table κ ν where
  rows := t.rows.map (changeAt id change)
  nextId := t.nextId
  ids_nodup := by simpa [List.map_map, Function.comp_def] using t.ids_nodup
  keys_nodup := by simpa [List.map_map, Function.comp_def] using t.keys_nodup
  ids_lt := by simpa using t.ids_lt

/-- The rows after an update are those before it, the one under the id with its columns changed. -/
theorem mem_update {t : Table κ ν} {id : ℕ} {change : ν → ν} {row : Row κ ν} :
    row ∈ (t.update id change).rows ↔ ∃ old ∈ t.rows, changeAt id change old = row :=
  List.mem_map

end Table

end KeyedTable

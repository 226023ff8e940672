import EventTalks.Foundation.SlotTable
import Mathlib.Data.List.Perm.Basic
import Mathlib.Data.List.Nodup
import Mathlib.Tactic.Common

/-! # Tables with a primary key

A keyed table is a list of rows no two of which share a key
(`Foundation.KeyedTable`). Reading by key is a partial map from keys to rows;
the operations are described by what they do to that map, so that a reader of
the table never looks at the order of its rows.
-/

namespace Foundation

variable {α κ : Type*} [DecidableEq κ] (key : α → κ)

/-- The position of the row with a key. -/
def position? (rows : List α) (name : κ) : Option Nat :=
  rows.findIdx? fun row => key row = name

/-- Overwrite the row that has the new row's key, or append the new row. -/
def upsertRows (rows : List α) (row : α) : List α :=
  match position? key rows (key row) with
  | some position => rows.set position row
  | none => rows ++ [row]

variable {key}

/-- No row is found of a name that no row has. -/
theorem position?_eq_none {rows : List α} {name : κ} :
    position? key rows name = none ↔ name ∉ rows.map key := by
  simp only [position?, List.findIdx?_eq_none_iff, decide_eq_false_iff_not, List.mem_map,
    not_exists,
    not_and]

/-- The row that is found has the name. -/
theorem position?_eq_some {rows : List α} {name : κ} {position : Nat}
    (found : position? key rows name = some position) :
    ∃ inside : position < rows.length, key rows[position] = name := by
  obtain ⟨inside, same, _⟩ := List.findIdx?_eq_some_iff_getElem.mp found
  exact ⟨inside, by simpa using same⟩

/-- An upsert keeps every key at its position; a new key comes last. -/
theorem map_key_upsertRows (rows : List α) (row : α) :
    (upsertRows key rows row).map key =
      if key row ∈ rows.map key then rows.map key else rows.map key ++ [key row] := by
  unfold upsertRows
  cases found : position? key rows (key row) with
  | none => simp only [position?_eq_none.mp found, ↓reduceIte, List.map_append, List.map_cons,
      List.map_nil]
  | some position =>
      obtain ⟨inside, same⟩ := position?_eq_some found
      have member : key row ∈ rows.map key :=
        List.mem_map.mpr ⟨_, List.getElem_mem inside, same⟩
      simp only [member, ↓reduceIte, List.map_set]
      rw [← same]
      exact List.ext_getElem? fun index => by
        by_cases here : position = index
        · subst here
          simp [inside]
        · rw [List.getElem?_set_ne here]

/-- Names stay unique when a row is put in its place. -/
theorem upsertRows_unique {rows : List α} (unique : (rows.map key).Nodup) (row : α) :
    ((upsertRows key rows row).map key).Nodup := by
  rw [map_key_upsertRows]
  split
  · exact unique
  · rename_i absent
    exact (List.nodup_append.mpr ⟨unique, by simp, by
      intro name member other single
      rw [List.mem_singleton.mp single]
      exact fun same => absent (same ▸ member)⟩)

/-- The rows are the new one and those of other names. -/
theorem mem_upsertRows {rows : List α} (unique : (rows.map key).Nodup) (row other : α) :
    other ∈ upsertRows key rows row ↔ other = row ∨ (other ∈ rows ∧ key other ≠ key row) := by
  unfold upsertRows
  cases found : position? key rows (key row) with
  | none =>
      have absent := position?_eq_none.mp found
      rw [List.mem_append, List.mem_singleton, or_comm]
      refine or_congr Iff.rfl ⟨fun member => ⟨member, fun same => ?_⟩, And.left⟩
      exact absent (List.mem_map.mpr ⟨other, member, same⟩)
  | some position =>
      obtain ⟨inside, same⟩ := position?_eq_some found
      simp only [List.mem_iff_getElem?, List.getElem?_set]
      constructor
      · intro placed
        rcases placed with ⟨index, read⟩
        by_cases here : position = index
        · simp only [here, ↓reduceIte] at read
          split at read
          · exact Or.inl (Option.some.inj read).symm
          · simp only [reduceCtorEq] at read
        · simp only [here, ↓reduceIte] at read
          refine Or.inr ⟨⟨index, read⟩, fun shared => here ?_⟩
          have first : (rows.map key)[position]? = some (key row) := by simp [inside, same]
          have second : (rows.map key)[index]? = some (key row) := by simp [read, shared]
          exact (List.getElem?_inj (by simpa using inside) unique).mp (first.trans second.symm)
      · intro written
        rcases written with rfl | ⟨⟨index, read⟩, different⟩
        · exact ⟨position, by simp [inside]⟩
        · refine ⟨index, ?_⟩
          have elsewhere : position ≠ index := by
            rintro rfl
            rw [List.getElem?_eq_getElem inside, Option.some.injEq] at read
            exact different (read ▸ same)
          simp only [elsewhere, ↓reduceIte, read]

variable (key) in
/-- A table whose rows have pairwise different keys. -/
structure KeyedTable where
  rows : List α
  unique : (rows.map key).Nodup

namespace KeyedTable

/-- The row with a key. -/
def get? (table : KeyedTable key) (name : κ) : Option α :=
  table.rows.find? fun row => key row = name

/-- The keys of a table, in the order of its rows. -/
def keys (table : KeyedTable key) : List κ := table.rows.map key

omit [DecidableEq κ] in

/-- A table is its rows. -/
theorem eq_of_rows {first second : KeyedTable key} (same : first.rows = second.rows) :
    first = second := by
  obtain ⟨rows, unique⟩ := first
  obtain ⟨rows', unique'⟩ := second
  obtain rfl : rows = rows' := same
  rfl

/-- The row of a name. -/
@[simp] theorem get?_eq_some {table : KeyedTable key} {name : κ} {row : α} :
    table.get? name = some row ↔ row ∈ table.rows ∧ key row = name := by
  constructor
  · intro found
    exact ⟨List.mem_of_find?_eq_some found, by simpa using List.find?_some found⟩
  · intro stored
    rcases stored with ⟨member, rfl⟩
    cases found : table.get? (key row) with
    | none =>
        simp only [get?, List.find?_eq_none] at found
        exact (found row member (decide_eq_true rfl)).elim
    | some other =>
        have inside := List.mem_of_find?_eq_some found
        have same : key other = key row := by simpa using List.find?_some found
        exact congrArg some (List.inj_on_of_nodup_map table.unique inside member same)

/-- There is no row of a name that the table has not. -/
@[simp] theorem get?_eq_none {table : KeyedTable key} {name : κ} :
    table.get? name = none ↔ name ∉ table.keys := by
  simp [get?, keys]

/-- Two tables read alike at a key once they hold the same rows with that key. -/
theorem get?_congr {first second : KeyedTable key} {name other : κ}
    (same : ∀ row, (row ∈ first.rows ∧ key row = name) ↔ (row ∈ second.rows ∧ key row = other)) :
    first.get? name = second.get? other := by
  apply Option.ext
  intro row
  rw [get?_eq_some, get?_eq_some, same]

/-- Add a row, replacing the one that has its key. -/
def upsert (table : KeyedTable key) (row : α) : KeyedTable key where
  rows := upsertRows key table.rows row
  unique := upsertRows_unique table.unique row

/-- The rows are the new one and those of other names. -/
@[simp] theorem mem_rows_upsert {table : KeyedTable key} {row other : α} :
    other ∈ (table.upsert row).rows ↔
      other = row ∨ (other ∈ table.rows ∧ key other ≠ key row) :=
  mem_upsertRows table.unique row other

/-- The row of a name after one was put in. -/
theorem get?_upsert (table : KeyedTable key) (row : α) (name : κ) :
    (table.upsert row).get? name = if name = key row then some row else table.get? name := by
  split
  · rename_i same
    exact get?_eq_some.mpr ⟨mem_rows_upsert.mpr (Or.inl rfl), same.symm⟩
  · rename_i different
    apply get?_congr
    intro other
    rw [mem_rows_upsert]
    constructor
    · intro matching
      rcases matching with ⟨rfl | ⟨member, _⟩, named⟩
      · exact absurd named.symm different
      · exact ⟨member, named⟩
    · intro other
      rcases other with ⟨member, rfl⟩
      exact ⟨Or.inr ⟨member, different⟩, rfl⟩

/-- The names after a row was put in. -/
theorem mem_keys_upsert (table : KeyedTable key) (row : α) (name : κ) :
    name ∈ (table.upsert row).keys ↔ name = key row ∨ name ∈ table.keys := by
  simp only [keys, upsert, map_key_upsertRows]
  split
  · rename_i present
    exact ⟨Or.inr, fun either => either.elim (fun same => same ▸ present) id⟩
  · rw [List.mem_append, List.mem_singleton, or_comm]

/-- A row with a new key is appended. -/
theorem rows_upsert_of_not_mem (table : KeyedTable key) (row : α) (absent : key row ∉ table.keys) :
    (table.upsert row).rows = table.rows ++ [row] := by
  have missing : position? key table.rows (key row) = none := position?_eq_none.mpr absent
  simp only [upsert, upsertRows, missing]

/-- Adding rows one after the other leaves, at each key, the last row that has
it. -/
theorem get?_foldl_upsert (table : KeyedTable key) (rows : List α) (name : κ) :
    (rows.foldl upsert table).get? name =
      (rows.reverse.find? fun row => key row = name).or (table.get? name) := by
  induction rows generalizing table with
  | nil => simp
  | cons row rest ih =>
      rw [List.foldl_cons, ih, get?_upsert, List.reverse_cons, List.find?_append, Option.or_assoc]
      congr 1
      by_cases same : name = key row
      · simp [same]
      · simp [same, Ne.symm same]

/-- Keep the rows whose key satisfies a predicate, in any order. -/
theorem get?_of_perm_filter {table kept : KeyedTable key} {keep : κ → Prop} [DecidablePred keep]
    (same : kept.rows.Perm (table.rows.filter fun row => keep (key row))) (name : κ) :
    kept.get? name = if keep name then table.get? name else none := by
  have members : ∀ row, row ∈ kept.rows ↔ row ∈ table.rows ∧ keep (key row) := by
    intro row
    rw [same.mem_iff]
    simp
  split
  · rename_i kept
    apply get?_congr
    intro row
    rw [members]
    exact ⟨fun member => ⟨member.1.1, member.2⟩,
      fun member => ⟨⟨member.1, member.2 ▸ kept⟩, member.2⟩⟩
  · rename_i dropped
    rw [get?_eq_none, keys, List.mem_map]
    intro present
    rcases present with ⟨row, member, rfl⟩
    exact dropped ((members row).mp member).2

/-- Remove the row with a key. -/
def erase (table : KeyedTable key) (name : κ) : KeyedTable key where
  rows := table.rows.filter fun row => key row ≠ name
  unique := table.unique.sublist (List.filter_sublist.map key)

/-- The rows of other names are left. -/
@[simp] theorem mem_rows_erase {table : KeyedTable key} {name : κ} {row : α} :
    row ∈ (table.erase name).rows ↔ row ∈ table.rows ∧ key row ≠ name := by
  simp [erase]

/-- The other names are left. -/
theorem mem_keys_erase (table : KeyedTable key) (name other : κ) :
    other ∈ (table.erase name).keys ↔ other ∈ table.keys ∧ other ≠ name := by
  simp only [keys, List.mem_map, mem_rows_erase]
  constructor
  · intro present
    rcases present with ⟨row, ⟨member, different⟩, rfl⟩
    exact ⟨⟨row, member, rfl⟩, different⟩
  · intro present
    rcases present with ⟨⟨row, member, rfl⟩, different⟩
    exact ⟨row, ⟨member, different⟩, rfl⟩

/-- The row of a name after one was erased. -/
theorem get?_erase (table : KeyedTable key) (name other : κ) :
    (table.erase name).get? other = if other = name then none else table.get? other := by
  split
  · rename_i same
    rw [get?_eq_none, mem_keys_erase]
    exact fun member => member.2 same
  · rename_i different
    apply get?_congr
    intro row
    rw [mem_rows_erase]
    exact ⟨fun member => ⟨member.1.1, member.2⟩,
      fun member => ⟨⟨member.1, member.2 ▸ different⟩, member.2⟩⟩

/-- The rows with a key removed the way a slot table does it: the last row takes the
slot. -/
def removedRows (table : KeyedTable key) (name : κ) : List α :=
  match position? key table.rows name with
  | some position => moveLastOver table.rows position
  | none => table.rows

/-- Removing moves the last row, and leaves those of other names. -/
theorem removedRows_perm (table : KeyedTable key) (name : κ) :
    (table.removedRows name).Perm (table.erase name).rows := by
  unfold removedRows
  cases found : position? key table.rows name with
  | none =>
      refine List.Perm.of_eq (List.filter_eq_self.mpr fun row member => ?_).symm
      have absent := position?_eq_none.mp found
      simpa using fun same => absent (List.mem_map.mpr ⟨row, member, same⟩)
  | some position =>
      obtain ⟨inside, rfl⟩ := position?_eq_some found
      have split := List.getElem_cons_eraseIdx_perm inside
      have unique := (split.map key).nodup_iff.mpr table.unique
      rw [List.map_cons, List.nodup_cons] at unique
      refine (moveLastOver_perm table.rows position inside).trans ?_
      refine List.Perm.trans (List.Perm.of_eq ?_) (split.filter _)
      rw [List.filter_cons_of_neg (by simp)]
      refine (List.filter_eq_self.mpr fun row member => ?_).symm
      simpa using fun same => unique.1 (List.mem_map.mpr ⟨row, member, same⟩)

/-- Remove the row with a key; the last row takes its slot. -/
def remove (table : KeyedTable key) (name : κ) : KeyedTable key where
  rows := table.removedRows name
  unique := ((table.removedRows_perm name).map key).nodup_iff.mpr (table.erase name).unique

/-- The other names are left. -/
theorem mem_keys_remove (table : KeyedTable key) (name other : κ) :
    other ∈ (table.remove name).keys ↔ other ∈ table.keys ∧ other ≠ name :=
  ((table.removedRows_perm name).map key).mem_iff.trans (table.mem_keys_erase name other)

/-- Removing an absent key changes nothing. -/
theorem erase_of_not_mem (table : KeyedTable key) {name : κ} (absent : name ∉ table.keys) :
    table.erase name = table := by
  obtain ⟨rows, unique⟩ := table
  simp only [erase, KeyedTable.mk.injEq, List.filter_eq_self, decide_eq_true_eq]
  exact fun row member same => absent (List.mem_map.mpr ⟨row, member, same⟩)

/-- Overwrite the row that has the new row's key, if there is one. -/
def replace (table : KeyedTable key) (row : α) : KeyedTable key :=
  if key row ∈ table.keys then table.upsert row else table

/-- Replacing a row leaves the names as they are. -/
theorem mem_keys_replace (table : KeyedTable key) (row : α) (name : κ) :
    name ∈ (table.replace row).keys ↔ name ∈ table.keys := by
  unfold replace
  split
  · rename_i present
    rw [mem_keys_upsert]
    exact ⟨fun either => either.elim (fun same => same ▸ present) id, Or.inr⟩
  · exact Iff.rfl

end KeyedTable

/-- A change of a partial map. -/
inductive Change (κ α : Type*) where
  | put (name : κ) (value : α)
  | drop (name : κ)

namespace Change

variable {α : Type*}

/-- The map after a change. -/
def apply (map : κ → Option α) : Change κ α → κ → Option α
  | put name value => Function.update map name (some value)
  | drop name => Function.update map name none

/-- The map after changes made one after the other. -/
def replay (map : κ → Option α) (changes : List (Change κ α)) : κ → Option α :=
  changes.foldl apply map

/-- The last change is replayed last. -/
@[simp] theorem replay_concat (map : κ → Option α) (changes : List (Change κ α))
    (change : Change κ α) :
    replay map (changes ++ [change]) = apply (replay map changes) change := by
  simp [replay, List.foldl_append]

end Change

end Foundation

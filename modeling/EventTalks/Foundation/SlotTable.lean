import Mathlib.Data.List.Perm.Basic
import Mathlib.Tactic.Common

/-! # Slot tables with references that follow their rows

A slot table keeps its rows at consecutive positions and removes a row by moving
the last row over it. References held elsewhere are positions too, and every
removal adjusts them: a reference to the removed row is detached, a reference to
the moved row is redirected to the freed slot (`Foundation.RowRef.follow`). Read
through its references, a removal therefore takes away one row and leaves every
other one where its holders expect it (`Foundation.deref_moveLastOver`).

A sweep visits the rows a cursor recorded beforehand and removes those that the
pinned references do not name. Although rows move while it runs, it leaves
exactly the rows that were pinned when it started (`Foundation.Sweep.run_rows`).
-/

namespace Foundation

variable {α : Type*}

/-- Removes the row at a position; the last row takes the freed slot. -/
def moveLastOver (rows : List α) (position : Nat) : List α :=
  match rows.getLast? with
  | none => []
  | some last => (rows.set position last).dropLast

/-- A reference to a row: its present position, or nothing once it is detached. -/
abbrev RowRef := Option Nat

/-- Where a reference points after the row at `position` of a table of `count`
rows has been removed by moving the last row over it. -/
def RowRef.follow (count position : Nat) : RowRef → RowRef
  | none => none
  | some row =>
      if row = position then none
      else if row + 1 = count then some position
      else some row

/-- The row a reference points to. -/
def deref (rows : List α) (ref : RowRef) : Option α := ref.bind fun row => rows[row]?

/-- A reference to no row. -/
@[simp] theorem deref_none (rows : List α) : deref rows none = none := rfl

/-- A reference to a row is to what is there. -/
@[simp] theorem deref_some (rows : List α) (row : Nat) : deref rows (some row) = rows[row]? := rfl

/-- The last row is put in the place of another one. -/
theorem moveLastOver_of_ne_nil (rows : List α) (position : Nat) (occupied : rows ≠ []) :
    moveLastOver rows position = (rows.set position (rows.getLast occupied)).dropLast := by
  simp only [moveLastOver, List.getLast?_eq_some_getLast occupied]

/-- A row is where it was, or the last one. -/
theorem getElem?_moveLastOver (rows : List α) (position row : Nat)
    (inside : position < rows.length) :
    (moveLastOver rows position)[row]? =
      if row + 1 < rows.length then
        if row = position then rows[rows.length - 1]? else rows[row]?
      else none := by
  have occupied : rows ≠ [] := List.ne_nil_of_length_pos (Nat.zero_lt_of_lt inside)
  rw [moveLastOver_of_ne_nil rows position occupied, List.getElem?_dropLast, List.length_set]
  by_cases lower : row + 1 < rows.length
  · have before : row < rows.length - 1 := by omega
    simp only [before, ↓reduceIte, lower]
    by_cases same : row = position
    · subst same
      simp only [List.getElem?_set_self inside, ↓reduceIte]
      rw [List.getLast_eq_getElem, List.getElem?_eq_getElem (by omega)]
    · rw [List.getElem?_set_ne (fun equal => same equal.symm)]
      simp only [same, ↓reduceIte]
  · have beyond : ¬ row < rows.length - 1 := by omega
    simp only [beyond, ↓reduceIte, lower]

/-- Moving rows leaves their values. -/
theorem moveLastOver_map {β : Type*} (f : α → β) (rows : List α) (position : Nat) :
    moveLastOver (rows.map f) position = (moveLastOver rows position).map f := by
  rw [moveLastOver, moveLastOver, List.getLast?_map]
  cases rows.getLast? with
  | none => rfl
  | some last => simp only [Option.map_some, List.map_set, List.map_dropLast]

/-- **References follow their rows.** After a removal, a reference to the removed
row is detached and every other reference still reads the row it read before. -/
theorem deref_moveLastOver (rows : List α) (position : Nat) (inside : position < rows.length)
    (ref : RowRef) :
    deref (moveLastOver rows position) (ref.follow rows.length position) =
      if ref = some position then none else deref rows ref := by
  cases ref with
  | none => rfl
  | some row =>
      by_cases removed : row = position
      · simp only [RowRef.follow, removed, ↓reduceIte, deref_none]
      · simp only [RowRef.follow, removed, ↓reduceIte, Option.some.injEq, deref_some]
        by_cases last : row + 1 = rows.length
        · have remaining : position + 1 < rows.length := by omega
          have lastPosition : rows.length - 1 = row := by omega
          simp only [last, ↓reduceIte, deref_some, getElem?_moveLastOver rows position _ inside,
            remaining, lastPosition]
        · simp only [last, ↓reduceIte, deref_some, getElem?_moveLastOver rows position _ inside,
            removed]
          split
          · rfl
          · rw [List.getElem?_eq_none (by omega)]

/-- Up to order, a removal takes away the row at that position and nothing else. -/
theorem moveLastOver_perm (rows : List α) (position : Nat) (inside : position < rows.length) :
    (moveLastOver rows position).Perm (rows.eraseIdx position) := by
  rcases rows.eq_nil_or_concat with rfl | ⟨initial, last, rfl⟩
  · simp at inside
  · simp only [List.concat_eq_append] at inside ⊢
    rw [moveLastOver_of_ne_nil _ _ (by simp)]
    simp only [List.getLast_append_singleton]
    by_cases inner : position < initial.length
    · rw [List.set_append_left _ _ inner, List.dropLast_concat,
        List.eraseIdx_append_of_lt_length inner]
      have split := List.getElem_cons_eraseIdx_perm inner
      have moved : (initial.set position last).Perm (last :: initial.eraseIdx position) := by
        have member : position < (initial.set position last).length := by
          rwa [List.length_set]
        have around := (List.getElem_cons_eraseIdx_perm member).symm
        rwa [List.getElem_set_self, List.eraseIdx_set_eq] at around
      exact moved.trans (List.perm_append_singleton _ _).symm
    · have atEnd : position = initial.length := by
        simp only [List.length_append, List.length_cons, List.length_nil] at inside
        omega
      subst atEnd
      rw [List.set_append_right _ _ (Nat.le_refl _),
        List.eraseIdx_append_of_length_le (Nat.le_refl _)]
      simp

/-- Two references to rows of a table without repeated rows agree once they read
the same row. -/
theorem RowRef.eq_of_deref_eq {rows : List α} (distinct : rows.Nodup) {ref : RowRef} {row : Nat}
    {value : α} (first : deref rows ref = some value) (second : rows[row]? = some value) :
    ref = some row := by
  cases ref with
  | none => simp only [deref_none, reduceCtorEq] at first
  | some other =>
      rw [deref_some] at first
      obtain ⟨otherInside, _⟩ := List.getElem?_eq_some_iff.mp first
      rw [(List.getElem?_inj otherInside distinct).mp (first.trans second.symm)]

/-- A table being swept: its rows, the references that pin some of them, and the
references a cursor recorded before the sweep began. -/
structure Sweep (α : Type*) where
  rows : List α
  pinned : List RowRef
  cursor : List RowRef

namespace Sweep

/-- Remove one row and adjust every reference held anywhere. -/
def remove (sweep : Sweep α) (position : Nat) : Sweep α where
  rows := moveLastOver sweep.rows position
  pinned := sweep.pinned.map (RowRef.follow sweep.rows.length position)
  cursor := sweep.cursor.map (RowRef.follow sweep.rows.length position)

/-- Visit one entry of the cursor, removing its row unless a pinned reference
names it at this moment. -/
def visit (sweep : Sweep α) (index : Nat) : Sweep α :=
  match sweep.cursor[index]? with
  | some (some row) => if some row ∈ sweep.pinned then sweep else sweep.remove row
  | _ => sweep

/-- Visit the entries of the cursor in order. -/
def run (sweep : Sweep α) : Sweep α := (List.range sweep.cursor.length).foldl visit sweep

/-- The rows the pinned references name. -/
def pinnedRows (sweep : Sweep α) : List (Option α) := sweep.pinned.map (deref sweep.rows)

/-- **The sweep's invariant.** With `count` entries of the cursor visited, the
pinned references still read the rows they read at the start, so do the entries
yet to be visited, and of the rows already visited only the pinned ones are
left. -/
structure Swept [DecidableEq α] (start : Sweep α) (count : Nat) (sweep : Sweep α) : Prop where
  pinnedRows_eq : sweep.pinnedRows = start.pinnedRows
  cursor_length : sweep.cursor.length = start.rows.length
  cursor_deref : ∀ index, count ≤ index →
    (sweep.cursor[index]?.bind (deref sweep.rows)) = start.rows[index]?
  rows_perm : sweep.rows.Perm
    ((start.rows.take count).filter (fun row => some row ∈ start.pinnedRows) ++
      start.rows.drop count)

variable [DecidableEq α]

/-- No row is there twice along a sweep. -/
theorem Swept.rows_nodup {start sweep : Sweep α} {count : Nat} (swept : Swept start count sweep)
    (distinct : start.rows.Nodup) : sweep.rows.Nodup := by
  refine swept.rows_perm.nodup_iff.mpr (List.Nodup.sublist ?_ distinct)
  conv_rhs => rw [← List.take_append_drop count start.rows]
  exact List.Sublist.append_right List.filter_sublist _

/-- A row that no pinned reference names leaves without disturbing the other
references. -/
theorem Swept.remove {start sweep : Sweep α} {count row : Nat} {value : α}
    (swept : Swept start count sweep) (distinct : start.rows.Nodup)
    (current : start.rows[count]? = some value) (located : sweep.rows[row]? = some value)
    (unpinned : some row ∉ sweep.pinned) : Swept start (count + 1) (sweep.remove row) := by
  have rowsDistinct := swept.rows_nodup distinct
  obtain ⟨inside, locatedAt⟩ := List.getElem?_eq_some_iff.mp located
  obtain ⟨countInside, currentAt⟩ := List.getElem?_eq_some_iff.mp current
  have kept : ∀ ref : RowRef, ref ≠ some row →
      deref (moveLastOver sweep.rows row) (ref.follow sweep.rows.length row) =
        deref sweep.rows ref := by
    intro ref different
    rw [deref_moveLastOver sweep.rows row inside, if_neg different]
  have notPinned : some value ∉ start.pinnedRows := by
    rw [← swept.pinnedRows_eq, pinnedRows, List.mem_map]
    intro pinned
    rcases pinned with ⟨ref, member, reads⟩
    exact unpinned (RowRef.eq_of_deref_eq rowsDistinct reads located ▸ member)
  constructor
  · rw [← swept.pinnedRows_eq, pinnedRows, pinnedRows, Sweep.remove, List.map_map]
    apply List.map_congr_left
    intro ref member
    exact kept ref fun same => unpinned (same ▸ member)
  · rw [Sweep.remove, List.length_map, swept.cursor_length]
  · intro index later
    have reads := swept.cursor_deref index (by omega)
    rw [← reads, Sweep.remove, List.getElem?_map]
    cases entry : sweep.cursor[index]? with
    | none => rfl
    | some ref =>
        simp only [Option.map_some, Option.bind_some]
        refine kept ref fun same => ?_
        rw [entry, same, Option.bind_some, deref_some, located] at reads
        have equal : count = index :=
          (List.getElem?_inj countInside distinct).mp (current.trans reads)
        omega
  · have split := (moveLastOver_perm sweep.rows row inside).cons value
    rw [← locatedAt] at split
    have whole := (split.trans (List.getElem_cons_eraseIdx_perm inside)).trans swept.rows_perm
    rw [locatedAt, List.drop_eq_getElem_cons countInside, currentAt] at whole
    have tail := (whole.trans List.perm_middle).cons_inv
    refine tail.trans (List.Perm.of_eq ?_)
    rw [List.take_add_one, current, List.filter_append]
    simp [notPinned]

/-- A row that is visited is swept. -/
theorem Swept.visit {start sweep : Sweep α} {count : Nat} (swept : Swept start count sweep)
    (distinct : start.rows.Nodup) (remaining : count < start.rows.length) :
    Swept start (count + 1) (sweep.visit count) := by
  have reads := swept.cursor_deref count (Nat.le_refl _)
  rw [List.getElem?_eq_getElem remaining] at reads
  obtain ⟨ref, entry, read⟩ := Option.bind_eq_some_iff.mp reads
  cases ref with
  | none => simp only [deref_none, reduceCtorEq] at read
  | some row =>
      rw [deref_some] at read
      simp only [Sweep.visit, entry]
      split
      · rename_i pinned
        have kept : some start.rows[count] ∈ start.pinnedRows := by
          rw [← swept.pinnedRows_eq, pinnedRows, List.mem_map]
          exact ⟨some row, pinned, read⟩
        refine ⟨swept.pinnedRows_eq, swept.cursor_length,
          fun index later => swept.cursor_deref index (by omega), ?_⟩
        refine swept.rows_perm.trans (List.Perm.of_eq ?_)
        rw [List.take_add_one, List.getElem?_eq_getElem remaining, List.filter_append,
          List.drop_eq_getElem_cons remaining]
        simp [kept]
      · rename_i unpinned
        exact swept.remove distinct (List.getElem?_eq_getElem remaining) read unpinned

/-- **A sweep leaves exactly the pinned rows.** The cursor names every row, the
rows are distinct, and whatever the pinned references named at the start is what
remains, still named by the same references. -/
theorem run_rows (start : Sweep α) (distinct : start.rows.Nodup)
    (everyRow : start.cursor = (List.range start.rows.length).map some) :
    start.run.rows.Perm (start.rows.filter fun row => some row ∈ start.pinnedRows) ∧
      start.run.pinnedRows = start.pinnedRows := by
  have prefixes : ∀ count ≤ start.rows.length,
      Swept start count ((List.range count).foldl Sweep.visit start) := by
    intro count
    induction count with
    | zero =>
        intro _
        refine ⟨rfl, by simp [everyRow], fun index _ => ?_, by simp⟩
        rw [List.range_zero, List.foldl_nil, everyRow, List.getElem?_map]
        by_cases inside : index < start.rows.length
        · simp [List.getElem?_range inside]
        · simp [Nat.le_of_not_lt inside]
    | succ count ih =>
        intro bound
        rw [List.range_succ, List.foldl_append]
        exact (ih (by omega)).visit distinct bound
  have swept := prefixes start.rows.length (Nat.le_refl _)
  have visited : start.cursor.length = start.rows.length := by simp [everyRow]
  rw [run, visited]
  refine ⟨?_, swept.pinnedRows_eq⟩
  simpa using swept.rows_perm

end Sweep

end Foundation

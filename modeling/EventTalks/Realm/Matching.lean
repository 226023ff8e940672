import EventTalks.Realm.ChangeBuilder
import Mathlib.Data.List.Sort

/-! # Matching the rows of two collections

A collection is a list of rows, known by where they are in their table. The rows before that
have been found again in the table after, and the rows after, are matched in the order of the
table: rows that are in only one of the collections are deleted or inserted, and the others
are kept, with their places in both collections
(`EventTalks.Realm.CollectionChangeBuilder.kept_matchRows`).
-/

namespace EventTalks.Realm

open Foundation

/-- A row of a collection, and where it was in the collection before, if it was there. -/
structure RowInfo where
  rowIndex : Nat
  prevTvIndex : Option Nat
  tvIndex : Nat

/-- A row of both collections. -/
structure KeptRow where
  rowIndex : Nat
  prevTvIndex : Nat
  tvIndex : Nat

namespace CollectionChangeBuilder

/-- The rows before that are still in the table; the others are deleted. -/
def readOld : Nat → IndexSet → List (Option Nat) → IndexSet × List RowInfo
  | _, deletions, [] => (deletions, [])
  | i, deletions, .none :: rest => readOld (i + 1) (deletions.add i) rest
  | i, deletions, some row :: rest =>
      let (deletions, oldRows) := readOld (i + 1) deletions rest
      (deletions, ⟨row, .none, i⟩ :: oldRows)

def readNew (nextRows : List Nat) : List RowInfo :=
  nextRows.mapIdx fun i row => ⟨row, .none, i⟩

/-- How rows are sorted in the order of the table; rows of the same index may come in any order,
as the sort of the standard library leaves open. -/
structure SortByRow where
  sort : List RowInfo → List RowInfo
  perm : ∀ rows, (sort rows).Perm rows
  sorted : ∀ rows, ((sort rows).map RowInfo.rowIndex).Pairwise (· ≤ ·)

/-- Rows of the same index keep their order. -/
def SortByRow.stable : SortByRow where
  sort rows := rows.insertionSort fun first second => first.rowIndex ≤ second.rowIndex
  perm rows := List.perm_insertionSort _ rows
  sorted rows := List.pairwise_map.mpr (List.pairwise_insertionSort _ rows)

/-- Rows of both collections are matched, both in the order of the table: rows only before
are removed, and rows only after are inserted. -/
def matchRows : List RowInfo → List RowInfo → IndexSet → IndexSet →
    List RowInfo × IndexSet × IndexSet
  | oldRow :: oldRows, newRow :: newRows, removed, insertions =>
      if oldRow.rowIndex = newRow.rowIndex then
        let (rows, sets) := matchRows oldRows newRows removed insertions
        ({ newRow with prevTvIndex := some oldRow.tvIndex } :: rows, sets)
      else if oldRow.rowIndex < newRow.rowIndex then
        matchRows oldRows (newRow :: newRows) (removed.add oldRow.tvIndex) insertions
      else
        let (rows, sets) :=
          matchRows (oldRow :: oldRows) newRows removed (insertions.add newRow.tvIndex)
        (newRow :: rows, sets)
  | oldRows, [], removed, insertions =>
      ([], oldRows.foldl (fun removed row => removed.add row.tvIndex) removed, insertions)
  | [], newRows, removed, insertions =>
      (newRows, removed, newRows.foldl (fun insertions row => insertions.add row.tvIndex)
        insertions)
  termination_by oldRows newRows => oldRows.length + newRows.length

/-- The rows of both collections, in the order of the one after. -/
def keptRows (newRows : List RowInfo) : List KeptRow :=
  (newRows.filterMap fun row => row.prevTvIndex.map fun prev => ⟨row.rowIndex, prev, row.tvIndex⟩)
    |>.insertionSort fun first second => first.tvIndex ≤ second.tvIndex

/-! ## Matching rows -/

section Matching

variable {i : Nat} {deletions removed insertions : IndexSet} {prevRows : List (Option Nat)}
  {oldRows newRows rows : List RowInfo} {order : SortByRow}

/-- The item at a place of a list whose places are counted from a first one on. -/
def Placed {α : Type*} (first : Nat) (items : List α) (place : Nat) (item : α) : Prop :=
  first ≤ place ∧ items[place - first]? = some item

/-- Counted from the first item on, an item is at its index. -/
theorem placed_zero {α : Type*} {items : List α} {place : Nat} {item : α} :
    Placed 0 items place item ↔ items[place]? = some item := by
  rw [Placed, Nat.sub_zero]
  exact and_iff_right (Nat.zero_le _)

/-- An item is the first one, or among the others. -/
theorem placed_cons {α : Type*} {first place : Nat} {head item : α} {items : List α} :
    Placed first (head :: items) place item ↔
      place = first ∧ item = head ∨ Placed (first + 1) items place item := by
  by_cases here : place = first
  · subst here
    simp only [Placed, Nat.sub_self, List.getElem?_cons_zero, Option.some.injEq, Nat.le_refl,
      true_and]
    rw [or_iff_left (by omega), eq_comm]
  · simp only [here, false_and, false_or]
    by_cases before : first ≤ place
    · have next : place - first = place - (first + 1) + 1 := by omega
      simp only [Placed, next, List.getElem?_cons_succ]
      exact and_congr_left fun _ => by omega
    · exact iff_of_false (fun placed => before placed.1) fun placed => before (by
        have := placed.1
        omega)

/-- **The rows before**: those that are gone are deleted, the others are listed at their indices,
in order. -/
theorem readOld_spec :
    (∀ source, source ∈ (readOld i deletions prevRows).1.toFinset ↔
      source ∈ deletions.toFinset ∨ Placed i prevRows source Option.none) ∧
    (∀ info, info ∈ (readOld i deletions prevRows).2 ↔
      Placed i prevRows info.tvIndex (some info.rowIndex) ∧ info.prevTvIndex = Option.none) ∧
    ((readOld i deletions prevRows).2.map RowInfo.tvIndex).Pairwise (· < ·) := by
  induction prevRows generalizing i deletions with
  | nil => simp [readOld, Placed]
  | cons row rest ih =>
      cases row with
      | none =>
          obtain ⟨gone, left, sorted⟩ := @ih (i + 1) (deletions.add i)
          rw [readOld]
          refine ⟨fun source => ?_, fun info => ?_, sorted⟩
          · rw [gone, IndexSet.toFinset_add, Finset.mem_insert, placed_cons]
            grind
          · rw [left, placed_cons]
            grind
      | some row =>
          obtain ⟨gone, left, sorted⟩ := @ih (i + 1) deletions
          rw [readOld]
          refine ⟨fun source => ?_, fun info => ?_, ?_⟩
          · rw [gone, placed_cons]
            grind
          · rw [List.mem_cons, left, placed_cons, RowInfo.mk.injEq]
            grind
          · rw [List.map_cons, List.pairwise_cons]
            refine ⟨fun place member => ?_, sorted⟩
            obtain ⟨info, among, rfl⟩ := List.mem_map.mp member
            exact ((left info).mp among).1.1

/-- The rows after are listed at their indices. -/
theorem mem_readNew {nextRows : List Nat} {info : RowInfo} :
    info ∈ readNew nextRows ↔
      nextRows[info.tvIndex]? = some info.rowIndex ∧ info.prevTvIndex = Option.none := by
  rw [readNew, List.mem_mapIdx]
  constructor
  · intro ⟨index, inside, same⟩
    subst same
    exact ⟨List.getElem?_eq_getElem inside, rfl⟩
  · intro ⟨here, new⟩
    obtain ⟨inside, found⟩ := List.getElem?_eq_some_iff.mp here
    refine ⟨info.tvIndex, inside, ?_⟩
    rw [found, ← new]

/-- The rows after are listed in order. -/
theorem pairwise_readNew (nextRows : List Nat) :
    ((readNew nextRows).map RowInfo.tvIndex).Pairwise (· < ·) := by
  have places : (readNew nextRows).map RowInfo.tvIndex = List.range nextRows.length := by
    apply List.ext_getElem?
    intro index
    rw [readNew, List.getElem?_map, List.getElem?_mapIdx]
    by_cases inside : index < nextRows.length
    · rw [List.getElem?_eq_getElem inside, List.getElem?_range inside]
      rfl
    · rw [List.getElem?_eq_none (Nat.le_of_not_lt inside),
        List.getElem?_eq_none (by simpa using inside)]
      rfl
  rw [places]
  exact List.pairwise_lt_range

/-- Added one by one, the places of all items are in the set. -/
theorem mem_foldl_add {β : Type*} {place : β → Nat} {items : List β} {set : IndexSet}
    {index : Nat} :
    index ∈ (items.foldl (fun set item => set.add (place item)) set).toFinset ↔
      index ∈ set.toFinset ∨ ∃ item ∈ items, place item = index := by
  induction items generalizing set with
  | nil => simp
  | cons item rest ih =>
      rw [List.foldl_cons, ih, IndexSet.toFinset_add, Finset.mem_insert]
      simp only [List.exists_mem_cons_iff]
      grind

/-- Every new row is listed after the rows are matched, at its place. -/
theorem places_matchRows : (matchRows oldRows newRows removed insertions).1.map
    (fun row => (row.rowIndex, row.tvIndex)) =
      newRows.map fun row => (row.rowIndex, row.tvIndex) := by
  fun_induction matchRows oldRows newRows removed insertions with
  | case1 oldRow oldRows newRow newRows removed insertions same rows sets found ih =>
      rw [found] at ih
      rw [List.map_cons, List.map_cons, ih]
  | case2 oldRow oldRows newRow newRows removed insertions other before ih => exact ih
  | case3 oldRow oldRows newRow newRows removed insertions other after rows sets found ih =>
      rw [found] at ih
      rw [List.map_cons, List.map_cons, ih]
  | case4 oldRows removed insertions => rfl
  | case5 newRows removed insertions => rfl

/-- Matching leaves the rows after as they are. -/
theorem rowIndex_matchRows : (matchRows oldRows newRows removed insertions).1.map
    RowInfo.rowIndex = newRows.map RowInfo.rowIndex := by
  have same := congrArg (List.map Prod.fst)
    (@places_matchRows removed insertions oldRows newRows)
  rwa [List.map_map, List.map_map] at same

/-- Matching leaves the indices of the rows after as they are. -/
theorem tvIndex_matchRows : (matchRows oldRows newRows removed insertions).1.map
    RowInfo.tvIndex = newRows.map RowInfo.tvIndex := by
  have same := congrArg (List.map Prod.snd)
    (@places_matchRows removed insertions oldRows newRows)
  rwa [List.map_map, List.map_map] at same

/-- Rows that are matched with old ones, if there are any, and the old and new rows that are
left over. -/
structure Matched (oldRows : List RowInfo) (removed insertions : IndexSet)
    (matched : List RowInfo × IndexSet × IndexSet) : Prop where
  old : ∀ row ∈ matched.1, ∀ prev, row.prevTvIndex = some prev →
    ∃ oldRow ∈ oldRows, oldRow.rowIndex = row.rowIndex ∧ oldRow.tvIndex = prev
  sources : (matched.1.filterMap RowInfo.prevTvIndex).Sublist (oldRows.map RowInfo.tvIndex)
  removed : ∀ source, source ∈ matched.2.1.toFinset ↔ source ∈ removed.toFinset ∨
    source ∈ oldRows.map RowInfo.tvIndex ∧ source ∉ matched.1.filterMap RowInfo.prevTvIndex
  inserted : ∀ target, target ∈ matched.2.2.toFinset ↔ target ∈ insertions.toFinset ∨
    ∃ row ∈ matched.1, row.tvIndex = target ∧ row.prevTvIndex = Option.none

/-- **Matching pairs rows** of the same index, each at most once; the induction follows the loop,
which takes a row of either list or a pair. -/
theorem matched_matchRows (new : ∀ row ∈ newRows, row.prevTvIndex = Option.none)
    (distinct : (oldRows.map RowInfo.tvIndex).Nodup) :
    Matched oldRows removed insertions (matchRows oldRows newRows removed insertions) := by
  fun_induction matchRows oldRows newRows removed insertions with
  | case1 oldRow oldRows newRow newRows removed insertions same rows sets found ih =>
      rw [List.map_cons, List.nodup_cons] at distinct
      obtain ⟨_, later⟩ := List.forall_mem_cons.mp new
      have matched := ih later distinct.2
      rw [found] at matched
      have kept : ({ newRow with prevTvIndex := some oldRow.tvIndex } :: rows).filterMap
          RowInfo.prevTvIndex = oldRow.tvIndex :: rows.filterMap RowInfo.prevTvIndex := rfl
      refine ⟨?_, ?_, fun source => ?_, fun target => ?_⟩
      · refine List.forall_mem_cons.mpr ⟨fun prev here => ?_, fun row member prev here => ?_⟩
        · exact ⟨oldRow, List.mem_cons_self, same, Option.some.inj here⟩
        · obtain ⟨old, among, found⟩ := matched.old row member prev here
          exact ⟨old, List.mem_cons_of_mem _ among, found⟩
      · rw [kept, List.map_cons]
        exact matched.sources.cons_cons _
      · rw [matched.removed, kept, List.map_cons]
        grind
      · rw [matched.inserted, List.exists_mem_cons_iff]
        grind
  | case2 oldRow oldRows newRow newRows removed insertions other before ih =>
      rw [List.map_cons, List.nodup_cons] at distinct
      obtain ⟨old, sources, removed', inserted⟩ := ih new distinct.2
      refine ⟨fun row member prev here => ?_, ?_, fun source => ?_, inserted⟩
      · obtain ⟨old, among, found⟩ := old row member prev here
        exact ⟨old, List.mem_cons_of_mem _ among, found⟩
      · rw [List.map_cons]
        exact sources.cons _
      · have := sources.subset
        rw [removed', IndexSet.toFinset_add, Finset.mem_insert, List.map_cons]
        grind
  | case3 oldRow oldRows newRow newRows removed insertions other after rows sets found ih =>
      obtain ⟨here, later⟩ := List.forall_mem_cons.mp new
      have matched := ih later distinct
      rw [found] at matched
      refine ⟨?_, ?_, fun source => ?_, fun target => ?_⟩
      · refine List.forall_mem_cons.mpr ⟨fun prev same => ?_, matched.old⟩
        rw [here] at same
        cases same
      · rw [List.filterMap_cons_none here]
        exact matched.sources
      · rw [matched.removed, List.filterMap_cons_none here]
      · rw [matched.inserted, IndexSet.toFinset_add, Finset.mem_insert, List.exists_mem_cons_iff]
        grind
  | case4 oldRows removed insertions =>
      refine ⟨nofun, List.nil_sublist _, fun source => ?_, fun target => ?_⟩
      · rw [mem_foldl_add, List.mem_map]
        simp
      · simp
  | case5 newRows removed insertions =>
      refine ⟨?_, ?_, fun source => ?_, fun target => ?_⟩
      · intro row member prev here
        rw [new row member] at here
        cases here
      · rw [List.filterMap_eq_nil_iff.mpr new]
        exact List.nil_sublist _
      · simp
      · rw [mem_foldl_add]
        grind

/-- Sorting leaves the rows. -/
theorem mem_sort {info : RowInfo} : info ∈ order.sort rows ↔ info ∈ rows :=
  (order.perm rows).mem_iff

/-- What is known of the rows of both collections before it is known which of them stay. -/
structure Kept (prevRows : List (Option Nat)) (nextRows : List Nat) (rows : List KeptRow)
    (deletions removed insertions : IndexSet) : Prop where
  sorted : (rows.map KeptRow.tvIndex).Pairwise (· < ·)
  distinct : (rows.map KeptRow.prevTvIndex).Nodup
  old : ∀ row ∈ rows, prevRows[row.prevTvIndex]? = some (some row.rowIndex)
  new : ∀ row ∈ rows, nextRows[row.tvIndex]? = some row.rowIndex
  gone : ∀ source, source ∈ deletions.toFinset ∨ source ∈ removed.toFinset ↔
    source < prevRows.length ∧ source ∉ rows.map KeptRow.prevTvIndex
  inserted : ∀ target, target ∈ insertions.toFinset ↔
    target < nextRows.length ∧ target ∉ rows.map KeptRow.tvIndex

/-- The kept rows are those that were matched. -/
theorem mem_keptRows {row : KeptRow} : row ∈ keptRows newRows ↔
    ∃ info ∈ newRows, info.prevTvIndex = some row.prevTvIndex ∧ info.rowIndex = row.rowIndex ∧
      info.tvIndex = row.tvIndex := by
  rw [keptRows, List.mem_insertionSort, List.mem_filterMap]
  refine exists_congr fun info => and_congr_right fun _ => ?_
  rw [Option.map_eq_some_iff]
  constructor
  · intro ⟨prev, here, same⟩
    subst same
    exact ⟨here, rfl, rfl⟩
  · intro ⟨here, same, place⟩
    exact ⟨_, here, by rw [same, place]⟩

/-- The kept rows have the indices before of those matched. -/
theorem map_prevTvIndex_keptRows (newRows : List RowInfo) :
    ((keptRows newRows).map KeptRow.prevTvIndex).Perm (newRows.filterMap RowInfo.prevTvIndex) := by
  refine ((List.perm_insertionSort _ _).map _).trans (List.Perm.of_eq ?_)
  rw [List.map_filterMap]
  refine List.filterMap_congr fun row _ => ?_
  rw [Option.map_map]
  exact Option.map_id' ..

/-- The kept rows have the indices after of those matched. -/
theorem map_tvIndex_keptRows (newRows : List RowInfo) :
    ((keptRows newRows).map KeptRow.tvIndex).Perm
      (newRows.filterMap fun row => row.prevTvIndex.map fun _ => row.tvIndex) := by
  refine ((List.perm_insertionSort _ _).map _).trans (List.Perm.of_eq ?_)
  rw [List.map_filterMap]
  refine List.filterMap_congr fun row _ => ?_
  rw [Option.map_map]
  rfl

/-- The indices of those matched are among all indices after. -/
theorem filterMap_tvIndex_sublist (newRows : List RowInfo) :
    (newRows.filterMap fun row => row.prevTvIndex.map fun _ => row.tvIndex).Sublist
      (newRows.map RowInfo.tvIndex) := by
  induction newRows with
  | nil => exact List.Sublist.refl _
  | cons row rest ih =>
      rw [List.map_cons, List.filterMap_cons]
      cases row.prevTvIndex with
      | none => exact ih.cons _
      | some prev => exact ih.cons_cons _

/-- The kept rows are in the order of the collection after. -/
theorem sorted_keptRows (distinct : (newRows.map RowInfo.tvIndex).Nodup) :
    ((keptRows newRows).map KeptRow.tvIndex).Pairwise (· < ·) := by
  have nodup : ((keptRows newRows).map KeptRow.tvIndex).Nodup :=
    (map_tvIndex_keptRows newRows).nodup_iff.mpr
      (distinct.sublist (filterMap_tvIndex_sublist newRows))
  have sorted : ((keptRows newRows).map KeptRow.tvIndex).Pairwise (· ≤ ·) :=
    List.pairwise_map.mpr (List.pairwise_insertionSort _ _)
  exact sorted.imp₂ (fun _ _ le ne => Nat.lt_of_le_of_ne le ne) nodup

/-- The rows that are matched are those of the collection after, at their places. -/
theorem mem_matchRows {nextRows : List Nat} {row place : Nat} :
    (∃ info ∈ (matchRows oldRows (order.sort (readNew nextRows)) removed insertions).1,
      info.rowIndex = row ∧ info.tvIndex = place) ↔ nextRows[place]? = some row := by
  have among := congrArg ((row, place) ∈ ·)
    (@places_matchRows removed insertions oldRows (order.sort (readNew nextRows)))
  simp only [List.mem_map, Prod.mk.injEq, mem_sort, mem_readNew, eq_iff_iff] at among
  rw [among]
  constructor
  · intro ⟨info, ⟨here, _⟩, same, place⟩
    rwa [same, place] at here
  · exact fun here => ⟨⟨row, Option.none, place⟩, ⟨here, rfl⟩, rfl, rfl⟩

/-- No row after is listed twice. -/
theorem nodup_matchRows (nextRows : List Nat) :
    ((matchRows oldRows (order.sort (readNew nextRows)) removed insertions).1.map
      RowInfo.tvIndex).Nodup := by
  rw [tvIndex_matchRows]
  exact ((order.perm _).map _).nodup_iff.mpr ((pairwise_readNew nextRows).imp Nat.ne_of_lt)

/-- The rows read from the collection before are those that are still in the table. -/
theorem mem_readOld {source : Nat} :
    source ∈ (order.sort (readOld 0 deletions prevRows).2).map RowInfo.tvIndex ↔
      ∃ row, prevRows[source]? = some (some row) := by
  have left := (@readOld_spec 0 deletions prevRows).2.1
  simp only [List.mem_map, mem_sort, left, placed_zero]
  constructor
  · intro ⟨info, ⟨here, _⟩, place⟩
    exact ⟨_, place ▸ here⟩
  · exact fun ⟨row, here⟩ => ⟨⟨row, Option.none, source⟩, ⟨here, rfl⟩, rfl⟩

/-- An index after is kept when its row was matched. -/
theorem mem_tvIndex_keptRows {target : Nat} : target ∈ (keptRows newRows).map KeptRow.tvIndex ↔
    ∃ info ∈ newRows, info.tvIndex = target ∧ ∃ prev, info.prevTvIndex = some prev := by
  simp only [List.mem_map, mem_keptRows]
  constructor
  · intro ⟨row, ⟨info, among, prev, _, place⟩, same⟩
    exact ⟨info, among, place.trans same, _, prev⟩
  · intro ⟨info, among, place, prev, here⟩
    exact ⟨⟨info.rowIndex, prev, target⟩, ⟨info, among, here, rfl, place⟩, rfl⟩

/-- A place before is one of a row that is gone from the table, of one that is not in the
collection after, or of one that is kept. -/
theorem Matched.gone {matched : List RowInfo × IndexSet × IndexSet}
    (spec : Matched (order.sort (readOld 0 IndexSet.clear prevRows).2) IndexSet.clear insertions
      matched) (source : Nat) :
    source ∈ (readOld 0 IndexSet.clear prevRows).1.toFinset ∨ source ∈ matched.2.1.toFinset ↔
      source < prevRows.length ∧ source ∉ matched.1.filterMap RowInfo.prevTvIndex := by
  have begun := @List.Sublist.subset _ _ _ spec.sources source
  have gone := (@readOld_spec 0 IndexSet.clear prevRows).1 source
  rw [mem_readOld] at begun
  rw [gone, placed_zero, spec.removed, mem_readOld, IndexSet.toFinset_clear]
  cases here : prevRows[source]? with
  | none =>
      have := List.getElem?_eq_none_iff.mp here
      grind
  | some row =>
      have := (List.getElem?_eq_some_iff.mp here).1
      cases row with
      | none => grind
      | some row => grind

/-- A place after is one of a row that was not in the collection before, or of one that is
kept. -/
theorem Matched.fresh {nextRows : List Nat} {matched : List RowInfo × IndexSet × IndexSet}
    (spec : Matched oldRows removed IndexSet.clear matched)
    (places : (matched.1.map RowInfo.tvIndex).Nodup)
    (listed : ∀ place, (∃ info ∈ matched.1, info.tvIndex = place) ↔ place < nextRows.length)
    (target : Nat) :
    target ∈ matched.2.2.toFinset ↔
      target < nextRows.length ∧ target ∉ (keptRows matched.1).map KeptRow.tvIndex := by
  have unique := List.inj_on_of_nodup_map places
  rw [spec.inserted, ← listed, mem_tvIndex_keptRows, IndexSet.toFinset_clear]
  constructor
  · rintro (none | ⟨info, among, place, none⟩)
    · exact absurd none (Finset.notMem_empty _)
    · refine ⟨⟨info, among, place⟩, ?_⟩
      intro ⟨other, among', place', prev, here⟩
      rw [unique among' among (place'.trans place.symm), none] at here
      cases here
  · intro ⟨⟨info, among, place⟩, unkept⟩
    refine Or.inr ⟨info, among, place, ?_⟩
    cases here : info.prevTvIndex with
    | none => rfl
    | some prev => exact absurd ⟨info, among, place, prev, here⟩ unkept

/-- **The rows of both collections** are kept, with their places in both. -/
theorem kept_matchRows (order : SortByRow) (prevRows : List (Option Nat)) (nextRows : List Nat) :
    let old := readOld 0 IndexSet.clear prevRows
    let matched := matchRows (order.sort old.2) (order.sort (readNew nextRows)) IndexSet.clear
      IndexSet.clear
    Kept prevRows nextRows (keptRows matched.1) old.1 matched.2.1 matched.2.2 := by
  intro old matched
  obtain ⟨_, left, ordered⟩ := @readOld_spec 0 IndexSet.clear prevRows
  have distinct : ((order.sort old.2).map RowInfo.tvIndex).Nodup :=
    ((order.perm old.2).map _).nodup_iff.mpr (ordered.imp Nat.ne_of_lt)
  have spec : Matched _ IndexSet.clear IndexSet.clear matched :=
    matched_matchRows (fun row member => (mem_readNew.mp (mem_sort.mp member)).2) distinct
  have places : (matched.1.map RowInfo.tvIndex).Nodup := nodup_matchRows nextRows
  refine ⟨sorted_keptRows places, ?_, fun row member => ?_, fun row member => ?_,
    fun source => ?_, spec.fresh places fun place => ?_⟩
  · exact (map_prevTvIndex_keptRows _).nodup_iff.mpr (distinct.sublist spec.sources)
  · obtain ⟨info, among, prev, same, _⟩ := mem_keptRows.mp member
    obtain ⟨oldRow, there, same', place⟩ := spec.old info among _ prev
    have here := ((left oldRow).mp (mem_sort.mp there)).1
    rw [placed_zero] at here
    rw [← place, here, same', same]
  · obtain ⟨info, among, _, same, place⟩ := mem_keptRows.mp member
    exact mem_matchRows.mp ⟨info, among, same, place⟩
  · rw [(map_prevTvIndex_keptRows matched.1).mem_iff]
    exact spec.gone source
  · constructor
    · intro ⟨info, among, same⟩
      exact (List.getElem?_eq_some_iff.mp (mem_matchRows.mp ⟨info, among, rfl, same⟩)).1
    · intro inside
      obtain ⟨info, among, _, same⟩ := mem_matchRows.mpr (List.getElem?_eq_getElem inside)
      exact ⟨info, among, same⟩

end Matching

/-! ## Rows that are in no collection twice -/

section Distinct

variable {prevRows : List (Option Nat)} {nextRows : List Nat} {oldRows newRows : List RowInfo}
  {deletions removed insertions : IndexSet} {order : SortByRow}

/-- **Rows that are in both collections** are matched, when no row is in one twice. -/
theorem matchRows_complete (sorted : (oldRows.map RowInfo.rowIndex).Pairwise (· < ·))
    (sorted' : (newRows.map RowInfo.rowIndex).Pairwise (· < ·)) :
    ∀ oldRow ∈ oldRows, ∀ row ∈ (matchRows oldRows newRows removed insertions).1,
      oldRow.rowIndex = row.rowIndex → row.prevTvIndex = some oldRow.tvIndex := by
  fun_induction matchRows oldRows newRows removed insertions with
  | case1 oldRow oldRows newRow newRows removed insertions same rows sets found ih =>
      obtain ⟨above, sorted⟩ := List.pairwise_cons.mp sorted
      obtain ⟨above', sorted'⟩ := List.pairwise_cons.mp sorted'
      have places := @rowIndex_matchRows removed insertions oldRows newRows
      rw [found] at places ih
      refine List.forall_mem_cons.mpr
        ⟨fun row member equal => ?_, fun old there row member equal => ?_⟩
      · rcases List.mem_cons.mp member with rfl | later
        · rfl
        · have := above' row.rowIndex (places ▸ List.mem_map_of_mem later)
          omega
      · rcases List.mem_cons.mp member with rfl | later
        · have := above old.rowIndex (List.mem_map_of_mem there)
          have : old.rowIndex = newRow.rowIndex := equal
          omega
        · exact ih sorted sorted' old there row later equal
  | case2 oldRow oldRows newRow newRows removed insertions other before ih =>
      obtain ⟨above, sorted⟩ := List.pairwise_cons.mp sorted
      have places := @rowIndex_matchRows (removed.add oldRow.tvIndex) insertions oldRows
        (newRow :: newRows)
      refine List.forall_mem_cons.mpr ⟨fun row member equal => ?_, ih sorted sorted'⟩
      have listed : row.rowIndex ∈ (newRow :: newRows).map RowInfo.rowIndex :=
        places ▸ List.mem_map_of_mem member
      rcases List.mem_cons.mp listed with here | later
      · omega
      · have := (List.pairwise_cons.mp sorted').1 row.rowIndex later
        omega
  | case3 oldRow oldRows newRow newRows removed insertions other after rows sets found ih =>
      obtain ⟨above', sorted'⟩ := List.pairwise_cons.mp sorted'
      rw [found] at ih
      intro old there row member equal
      rcases List.mem_cons.mp member with rfl | later
      · have : oldRow.rowIndex ≤ old.rowIndex := by
          rcases List.mem_cons.mp there with rfl | later
          · exact Nat.le_refl _
          · exact ((List.pairwise_cons.mp sorted).1 old.rowIndex (List.mem_map_of_mem later)).le
        omega
      · exact ih sorted sorted' old there row later equal
  | case4 oldRows removed insertions => exact nofun
  | case5 newRows removed insertions => exact nofun

/-- Rows of different indices are sorted strictly. -/
theorem sorted_sort {rows : List RowInfo} (distinct : (rows.map RowInfo.rowIndex).Nodup) :
    ((order.sort rows).map RowInfo.rowIndex).Pairwise (· < ·) := by
  have nodup : ((order.sort rows).map RowInfo.rowIndex).Nodup :=
    ((order.perm rows).map _).nodup_iff.mpr distinct
  exact (order.sorted rows).imp₂ (fun _ _ le ne => Nat.lt_of_le_of_ne le ne) nodup

/-- **Rows of different indices are sorted in one way.** -/
theorem sort_eq {rows : List RowInfo} (distinct : (rows.map RowInfo.rowIndex).Nodup) :
    order.sort rows = SortByRow.stable.sort rows := by
  have pairwise : ∀ order : SortByRow,
      (order.sort rows).Pairwise fun first second => first.rowIndex < second.rowIndex :=
    fun order => List.pairwise_map.mp (sorted_sort distinct)
  apply List.Perm.eq_of_pairwise _ (pairwise order) (pairwise SortByRow.stable)
  · exact (order.perm rows).trans (SortByRow.stable.perm rows).symm
  · intro first second _ _ before after
    exact absurd (Nat.lt_trans before after) (Nat.lt_irrefl _)

/-- The rows before are listed as they are. -/
theorem rowIndex_readOld {i : Nat} :
    (readOld i deletions prevRows).2.map RowInfo.rowIndex = prevRows.filterMap id := by
  induction prevRows generalizing i deletions with
  | nil => rfl
  | cons row rest ih =>
      cases row with
      | none => exact ih
      | some row =>
          rw [readOld, List.map_cons, ih]
          rfl

/-- The rows after are listed as they are. -/
theorem rowIndex_readNew (nextRows : List Nat) :
    (readNew nextRows).map RowInfo.rowIndex = nextRows := by
  apply List.ext_getElem?
  intro index
  rw [readNew, List.getElem?_map, List.getElem?_mapIdx, Option.map_map]
  exact congrFun Option.map_id _

/-- A row of both collections is kept with its places in both. -/
theorem mem_keptRows_matchRows (distinct : (prevRows.filterMap id).Nodup)
    (distinct' : nextRows.Nodup)
    {source target row : Nat} (before : prevRows[source]? = some (some row))
    (after : nextRows[target]? = some row) :
    ⟨row, source, target⟩ ∈ keptRows (matchRows (order.sort (readOld 0 deletions prevRows).2)
      (order.sort (readNew nextRows)) removed insertions).1 := by
  have complete := @matchRows_complete (order.sort (readOld 0 deletions prevRows).2)
    (order.sort (readNew nextRows)) removed insertions
    (sorted_sort (by rwa [rowIndex_readOld]))
    (sorted_sort (by rwa [rowIndex_readNew]))
  obtain ⟨info, among, same, place⟩ := mem_matchRows.mpr after
  have read : ⟨row, Option.none, source⟩ ∈ (readOld 0 deletions prevRows).2 :=
    (readOld_spec.2.1 _).mpr ⟨placed_zero.mpr before, rfl⟩
  have prev := complete _ (mem_sort.mpr read) info among same.symm
  exact mem_keptRows.mpr ⟨info, among, prev, same, place⟩

end Distinct

end CollectionChangeBuilder

end EventTalks.Realm

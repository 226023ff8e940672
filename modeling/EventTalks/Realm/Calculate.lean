import EventTalks.Realm.ChangeBuilder
import EventTalks.Realm.LongestMatches
import EventTalks.Realm.Matching

/-! # Calculating the changes of a collection

Rows of both collections that cannot all stay in their order are taken out and put back
(`EventTalks.Realm.CollectionChangeBuilder.calculate`). The calculated changes lead from the
one collection to the other (`EventTalks.Realm.CollectionChangeBuilder.calculate_tracks`), and
when no row has to be put back, they delete and insert only rows that are gone or new
(`EventTalks.Realm.CollectionChangeBuilder.calculate_minimal`).
-/

namespace EventTalks.Realm

open Foundation

namespace CollectionChangeBuilder

/-- The first index at which two collections of the same rows differ. -/
def firstDifference (a : List LongestCommonSubsequenceCalculator.Row) (rows : List KeptRow) :
    Option Nat :=
  (a.zip rows).findIdx? fun pair => pair.1.rowIndex ≠ pair.2.rowIndex

/-- Rows are deleted and inserted between the blocks that both collections are aligned by. -/
def align (a : List LongestCommonSubsequenceCalculator.Row) (rows : List KeptRow) :
    Nat → Nat → IndexSet → IndexSet → List LongestCommonSubsequenceCalculator.Match →
    IndexSet × IndexSet
  | _, _, deletions, insertions, [] => (deletions, insertions)
  | i, j, deletions, insertions, m :: matches' =>
      let deletions := ((a.take m.i).drop i).foldl (fun set row => set.add row.tvIndex) deletions
      let insertions :=
        ((rows.take m.j).drop j).foldl (fun set row => set.add row.tvIndex) insertions
      align a rows (max i m.i + m.size) (max j m.j + m.size) deletions insertions matches'

/-- The kept rows in the order of the collection before. -/
def oldOrder (rows : List KeptRow) : List LongestCommonSubsequenceCalculator.Row :=
  (rows.map fun row => ⟨row.rowIndex, row.prevTvIndex⟩).insertionSort fun first second =>
    first.tvIndex < second.tvIndex ∨
      first.tvIndex = second.tvIndex ∧ first.rowIndex ≤ second.rowIndex

/-- The kept rows in the order of the table, with where they are among the kept rows. -/
def tableOrder (rows : List KeptRow) : List LongestCommonSubsequenceCalculator.Row :=
  (rows.mapIdx fun i row => ⟨row.rowIndex, i⟩).insertionSort fun first second =>
    first.rowIndex < second.rowIndex ∨
      first.rowIndex = second.rowIndex ∧ first.tvIndex ≤ second.tvIndex

/-- Kept rows that change their order are taken out and put back. -/
def calculateMovesSorted (rows : List KeptRow) (modifications deletions insertions : IndexSet) :
    IndexSet × IndexSet :=
  let a := oldOrder rows
  match firstDifference a rows with
  | .none => (deletions, insertions)
  | some first =>
      let calculator : LongestCommonSubsequenceCalculator := ⟨modifications, a, tableOrder rows⟩
      align a rows first first deletions insertions (calculator.longestMatches first)

/-- The changes from rows before, found again in the table, to rows after; the rows are sorted
as the standard library sorts them. -/
def calculateBy (order : SortByRow) (prevRows : List (Option Nat)) (nextRows : List Nat)
    (rowDidChange : Nat → Bool) : CollectionChangeBuilder :=
  let (deletions, oldRows) := readOld 0 IndexSet.clear prevRows
  let (newRows, removed, insertions) := matchRows (order.sort oldRows)
    (order.sort (readNew nextRows)) IndexSet.clear IndexSet.clear
  let rows := keptRows newRows
  let modifications := rows.foldl (fun modifications row =>
    if rowDidChange row.rowIndex then modifications.add row.tvIndex else modifications)
    IndexSet.clear
  let (deletions, insertions) := calculateMovesSorted rows modifications deletions insertions
  { CollectionChangeBuilder.none with
    deletions := deletions.addSet removed
    insertions
    modifications }

/-- The changes between collections that have no row twice, whose rows are sorted in one way
(`EventTalks.Realm.CollectionChangeBuilder.calculateBy_eq`). -/
def calculate (prevRows : List (Option Nat)) (nextRows : List Nat) (rowDidChange : Nat → Bool) :
    CollectionChangeBuilder :=
  calculateBy .stable prevRows nextRows rowDidChange

/-! ## Aligning rows -/

section Aligning

open LongestCommonSubsequenceCalculator (Aligned InBlocks Block inBlocks_cons)

variable {a : List LongestCommonSubsequenceCalculator.Row} {rows : List KeptRow}
  {deletions insertions modifications : IndexSet}

/-- A row of the one order and a row of the other are the same row. -/
def SameRow (a : List LongestCommonSubsequenceCalculator.Row) (rows : List KeptRow) (k l : Nat) :
    Prop :=
  ∃ row kept, a[k]? = some row ∧ rows[l]? = some kept ∧ row.rowIndex = kept.rowIndex

/-- Which rows of both orders stay: they are paired in order with the same rows, and the
others are deleted and inserted. -/
structure Aligns (a : List LongestCommonSubsequenceCalculator.Row) (rows : List KeptRow)
    (deletions insertions : IndexSet) (pair : Nat → Nat → Prop) (aligned : IndexSet × IndexSet) :
    Prop where
  same : ∀ k l, pair k l → SameRow a rows k l
  ordered : ∀ k l k' l', pair k l → pair k' l' → (k < k' ↔ l < l')
  deleted : ∀ source, source ∈ aligned.1.toFinset ↔ source ∈ deletions.toFinset ∨
    ∃ k row, a[k]? = some row ∧ row.tvIndex = source ∧ ∀ l, ¬ pair k l
  inserted : ∀ target, target ∈ aligned.2.toFinset ↔ target ∈ insertions.toFinset ∨
    ∃ l row, rows[l]? = some row ∧ row.tvIndex = target ∧ ∀ k, ¬ pair k l

/-- What is between two places of a list. -/
theorem mem_drop_take {β : Type*} {items : List β} {start stop : Nat} {item : β} :
    item ∈ (items.take stop).drop start ↔
      ∃ place, start ≤ place ∧ place < stop ∧ items[place]? = some item := by
  rw [List.mem_iff_getElem?]
  simp only [List.getElem?_drop, List.getElem?_take, Option.ite_none_right_eq_some]
  constructor
  · intro ⟨offset, before, here⟩
    exact ⟨start + offset, Nat.le_add_right _ _, before, here⟩
  · intro ⟨place, begun, before, here⟩
    refine ⟨place - start, ?_⟩
    rw [Nat.add_sub_cancel' begun]
    exact ⟨before, here⟩

/-- **Aligning** deletes the old rows outside of the blocks and inserts the new ones; the
induction is on the blocks that are left. -/
theorem align_spec {rel : Nat → Nat → Prop} {i j : Nat}
    {matches' : List LongestCommonSubsequenceCalculator.Match}
    (aligned : Aligned rel a.length rows.length i j matches') :
    (∀ source, source ∈ (align a rows i j deletions insertions matches').1.toFinset ↔
      source ∈ deletions.toFinset ∨ ∃ k row, i ≤ k ∧ a[k]? = some row ∧ row.tvIndex = source ∧
        ∀ l, ¬ InBlocks matches' k l) ∧
    ∀ target, target ∈ (align a rows i j deletions insertions matches').2.toFinset ↔
      target ∈ insertions.toFinset ∨ ∃ l row, j ≤ l ∧ rows[l]? = some row ∧
        row.tvIndex = target ∧ ∀ k, ¬ InBlocks matches' k l := by
  induction matches' generalizing i j deletions insertions with
  | nil =>
      obtain ⟨rfl, rfl⟩ := aligned
      refine ⟨fun source => (or_iff_left ?_).symm, fun target => (or_iff_left ?_).symm⟩
      · intro ⟨k, row, beyond, here, _⟩
        exact absurd (List.getElem?_eq_some_iff.mp here).1 (Nat.not_lt.mpr beyond)
      · intro ⟨l, row, beyond, here, _⟩
        exact absurd (List.getElem?_eq_some_iff.mp here).1 (Nat.not_lt.mpr beyond)
  | cons m rest ih =>
      rw [align, Nat.max_eq_right aligned.1.begun1, Nat.max_eq_right aligned.1.begun2]
      obtain ⟨deleted, inserted⟩ := @ih
        (((a.take m.i).drop i).foldl (fun set row => set.add row.tvIndex) deletions)
        (((rows.take m.j).drop j).foldl (fun set row => set.add row.tvIndex) insertions) _ _
          aligned.2
      refine ⟨fun source => ?_, fun target => ?_⟩
      · rw [deleted, mem_foldl_add, or_assoc]
        refine or_congr_right ?_
        simp only [mem_drop_take, aligned.outside_cons1]
        have := aligned.1.begun1
        constructor
        · rintro (⟨row, ⟨k, begun, before, here⟩, place⟩ | ⟨k, row, after, here, place, outside⟩)
          · exact ⟨k, row, begun, here, place, Or.inl before⟩
          · exact ⟨k, row, by omega, here, place, Or.inr ⟨after, outside⟩⟩
        · rintro ⟨k, row, begun, here, place, before | ⟨after, outside⟩⟩
          · exact Or.inl ⟨row, ⟨k, begun, before, here⟩, place⟩
          · exact Or.inr ⟨k, row, after, here, place, outside⟩
      · rw [inserted, mem_foldl_add, or_assoc]
        refine or_congr_right ?_
        simp only [mem_drop_take, aligned.outside_cons2]
        have := aligned.1.begun2
        constructor
        · rintro (⟨row, ⟨l, begun, before, here⟩, place⟩ | ⟨l, row, after, here, place, outside⟩)
          · exact ⟨l, row, begun, here, place, Or.inl before⟩
          · exact ⟨l, row, by omega, here, place, Or.inr ⟨after, outside⟩⟩
        · rintro ⟨l, row, begun, here, place, before | ⟨after, outside⟩⟩
          · exact Or.inl ⟨row, ⟨l, begun, before, here⟩, place⟩
          · exact Or.inr ⟨l, row, after, here, place, outside⟩

/-- The old order has all kept rows. -/
theorem length_oldOrder (rows : List KeptRow) : (oldOrder rows).length = rows.length := by
  rw [oldOrder, List.length_insertionSort, List.length_map]

/-- The order of the table has all kept rows. -/
theorem length_tableOrder (rows : List KeptRow) : (tableOrder rows).length = rows.length := by
  rw [tableOrder, List.length_insertionSort, List.length_mapIdx]

/-- The order of the table has each kept row at its index. -/
theorem mem_tableOrder {rowIndex j : Nat} :
    ⟨rowIndex, j⟩ ∈ tableOrder rows ↔ ∃ kept, rows[j]? = some kept ∧ kept.rowIndex = rowIndex := by
  rw [tableOrder, List.mem_insertionSort, List.mem_mapIdx]
  constructor
  · intro ⟨index, inside, same⟩
    obtain ⟨rfl, rfl⟩ := (LongestCommonSubsequenceCalculator.Row.mk.injEq ..).mp same
    exact ⟨_, List.getElem?_eq_getElem inside, rfl⟩
  · rintro ⟨kept, here, rfl⟩
    obtain ⟨inside, found⟩ := List.getElem?_eq_some_iff.mp here
    exact ⟨j, inside, by rw [found]⟩

/-- **The rows of the table are in order**, as the search for the longest match expects them. -/
theorem ordered_tableOrder (rows : List KeptRow) :
    LongestCommonSubsequenceCalculator.Ordered (tableOrder rows) := by
  have total : Std.Total fun first second : LongestCommonSubsequenceCalculator.Row =>
      first.rowIndex < second.rowIndex ∨
        first.rowIndex = second.rowIndex ∧ first.tvIndex ≤ second.tvIndex :=
    ⟨fun _ _ => by omega⟩
  have trans : IsTrans _ fun first second : LongestCommonSubsequenceCalculator.Row =>
      first.rowIndex < second.rowIndex ∨
        first.rowIndex = second.rowIndex ∧ first.tvIndex ≤ second.tvIndex :=
    ⟨fun _ _ _ => by omega⟩
  exact List.pairwise_insertionSort _ _

/-- Before the first difference, the rows of both orders are the same. -/
theorem sameRow_of_lt {k : Nat} (length : a.length = rows.length) (inside : k < rows.length)
    (before : ∀ first, firstDifference a rows = some first → k < first) : SameRow a rows k k := by
  have zipped : k < (a.zip rows).length := by
    rw [List.length_zip, length, Nat.min_self]
    exact inside
  refine ⟨a[k], rows[k], List.getElem?_eq_getElem _, List.getElem?_eq_getElem _, ?_⟩
  have same : decide ((a.zip rows)[k].1.rowIndex ≠ (a.zip rows)[k].2.rowIndex) = false := by
    cases found : firstDifference a rows with
    | none => exact List.findIdx?_eq_none_iff.mp found _ (List.getElem_mem zipped)
    | some first =>
        obtain ⟨_, _, others⟩ := List.findIdx?_eq_some_iff_getElem.mp found
        exact Bool.eq_false_iff.mpr (others k (before first found))
  rw [List.getElem_zip] at same
  exact not_not.mp (of_decide_eq_false same)

/-- The rows that have to be put back are those outside of the blocks of an alignment. -/
theorem aligns_calculateMovesSorted :
    ∃ pair, Aligns (oldOrder rows) rows deletions insertions pair
      (calculateMovesSorted rows modifications deletions insertions) := by
  have length := length_oldOrder rows
  rw [calculateMovesSorted]
  cases found : firstDifference (oldOrder rows) rows with
  | none =>
      have stays : ∀ k < rows.length, SameRow (oldOrder rows) rows k k := fun k inside =>
        sameRow_of_lt length inside fun first some => by rw [found] at some; cases some
      refine ⟨fun k l => k = l ∧ k < rows.length, ?_, ?_, fun source => ?_, fun target => ?_⟩
      · rintro k _ ⟨rfl, inside⟩
        exact stays k inside
      · grind
      · refine (or_iff_left ?_).symm
        intro ⟨k, row, here, _, unpaired⟩
        exact unpaired k ⟨rfl, length ▸ (List.getElem?_eq_some_iff.mp here).1⟩
      · refine (or_iff_left ?_).symm
        intro ⟨l, row, here, _, unpaired⟩
        exact unpaired l ⟨rfl, (List.getElem?_eq_some_iff.mp here).1⟩
  | some first =>
      have inside : first < rows.length := by
        obtain ⟨inside, _⟩ := List.findIdx?_eq_some_iff_getElem.mp found
        rw [List.length_zip] at inside
        omega
      have stays : ∀ k < first, SameRow (oldOrder rows) rows k k := fun k before =>
        sameRow_of_lt length (before.trans inside) fun other same => by
          rw [found] at same
          rwa [← Option.some.inj same]
      let calculator : LongestCommonSubsequenceCalculator :=
        ⟨modifications, oldOrder rows, tableOrder rows⟩
      have aligned : Aligned (SameRow (oldOrder rows) rows) (oldOrder rows).length rows.length
          first first (calculator.longestMatches first) := by
        have inside' : first ≤ calculator.b.length := (length_tableOrder rows).symm ▸ inside.le
        have found := @LongestCommonSubsequenceCalculator.aligned_longestMatches calculator
          (SameRow (oldOrder rows) rows) first (length.symm ▸ inside.le) inside'
          fun i row here j member => by
            obtain ⟨kept, there, same⟩ := mem_tableOrder.mp member
            exact ⟨row, kept, here, there, same.symm⟩
        rwa [show calculator.b.length = rows.length from length_tableOrder rows] at found
      obtain ⟨deleted, inserted⟩ :=
        @align_spec (oldOrder rows) rows deletions insertions _ _ _ _ aligned
      refine ⟨fun k l => k = l ∧ k < first ∨ InBlocks (calculator.longestMatches first) k l,
        ?_, ?_, fun source => ?_, fun target => ?_⟩
      · rintro k l (⟨rfl, before⟩ | listed)
        · exact stays k before
        · exact (aligned.inside listed).2.2
      · rintro k l k' l' (⟨rfl, before⟩ | listed) (⟨rfl, before'⟩ | listed')
        · exact Iff.rfl
        · have := aligned.inside listed'
          omega
        · have := aligned.inside listed
          omega
        · exact aligned.ordered listed listed'
      · rw [deleted]
        refine or_congr_right (exists_congr fun k => exists_congr fun row => ?_)
        constructor
        · rintro ⟨beyond, here, place, outside⟩
          refine ⟨here, place, fun l paired => ?_⟩
          rcases paired with ⟨_, before⟩ | listed
          · omega
          · exact outside l listed
        · rintro ⟨here, place, unpaired⟩
          refine ⟨?_, here, place, fun l listed => unpaired l (Or.inr listed)⟩
          by_contra before
          exact unpaired k (Or.inl ⟨rfl, Nat.lt_of_not_le before⟩)
      · rw [inserted]
        refine or_congr_right (exists_congr fun l => exists_congr fun row => ?_)
        constructor
        · rintro ⟨beyond, here, place, outside⟩
          refine ⟨here, place, fun k paired => ?_⟩
          rcases paired with ⟨same, before⟩ | listed
          · omega
          · exact outside k listed
        · rintro ⟨here, place, unpaired⟩
          refine ⟨?_, here, place, fun k listed => unpaired k (Or.inr listed)⟩
          by_contra before
          exact unpaired l (Or.inl ⟨rfl, Nat.lt_of_not_le before⟩)

end Aligning

/-! ## The calculated changes -/

section Calculated

variable {prevRows : List (Option Nat)} {nextRows : List Nat} {rows : List KeptRow}
  {deletions removed insertions : IndexSet}

/-- In an ordered list, items and their indices are in the same order. -/
theorem lt_iff_of_pairwise {β : Type*} {place : β → Nat} {items : List β} {k k' : Nat}
    {item item' : β} (sorted : (items.map place).Pairwise (· < ·)) (here : items[k]? = some item)
    (there : items[k']? = some item') : k < k' ↔ place item < place item' := by
  obtain ⟨inside, rfl⟩ := List.getElem?_eq_some_iff.mp here
  obtain ⟨inside', rfl⟩ := List.getElem?_eq_some_iff.mp there
  have increases := List.pairwise_iff_getElem.mp (List.pairwise_map.mp sorted)
  constructor
  · exact increases k k' inside inside'
  · intro less
    by_contra after
    rcases Nat.lt_or_eq_of_le (Nat.le_of_not_lt after) with before | same
    · exact (increases k' k inside' inside before).asymm less
    · subst same
      exact Nat.lt_irrefl _ less

/-- In an ordered list, each place is there once. -/
theorem eq_of_pairwise {β : Type*} {place : β → Nat} {items : List β} {k k' : Nat} {item item' : β}
    (sorted : (items.map place).Pairwise (· < ·)) (here : items[k]? = some item)
    (there : items[k']? = some item') (same : place item = place item') : k = k' := by
  have forward := lt_iff_of_pairwise sorted here there
  have back := lt_iff_of_pairwise sorted there here
  omega

/-- The old order has the kept rows at their indices before. -/
theorem mem_oldOrder {row : LongestCommonSubsequenceCalculator.Row} : row ∈ oldOrder rows ↔
    ∃ kept ∈ rows, kept.rowIndex = row.rowIndex ∧ kept.prevTvIndex = row.tvIndex := by
  rw [oldOrder, List.mem_insertionSort, List.mem_map]
  refine exists_congr fun kept => and_congr_right fun _ => ?_
  constructor
  · rintro rfl
    exact ⟨rfl, rfl⟩
  · intro ⟨same, place⟩
    rw [same, place]

/-- The old order is that of the collection before. -/
theorem pairwise_oldOrder (distinct : (rows.map KeptRow.prevTvIndex).Nodup) :
    ((oldOrder rows).map LongestCommonSubsequenceCalculator.Row.tvIndex).Pairwise (· < ·) := by
  have total : Std.Total fun first second : LongestCommonSubsequenceCalculator.Row =>
      first.tvIndex < second.tvIndex ∨
        first.tvIndex = second.tvIndex ∧ first.rowIndex ≤ second.rowIndex :=
    ⟨fun _ _ => by omega⟩
  have trans : IsTrans _ fun first second : LongestCommonSubsequenceCalculator.Row =>
      first.tvIndex < second.tvIndex ∨
        first.tvIndex = second.tvIndex ∧ first.rowIndex ≤ second.rowIndex :=
    ⟨fun _ _ _ => by omega⟩
  have nodup : ((oldOrder rows).map LongestCommonSubsequenceCalculator.Row.tvIndex).Nodup := by
    refine ((List.perm_insertionSort _ _).map _).nodup_iff.mpr ?_
    rwa [List.map_map]
  have sorted : ((oldOrder rows).map LongestCommonSubsequenceCalculator.Row.tvIndex).Pairwise
      (· ≤ ·) := by
    refine List.pairwise_map.mpr ((List.pairwise_insertionSort _ _).imp fun order => ?_)
    omega
  exact sorted.imp₂ (fun _ _ le ne => Nat.lt_of_le_of_ne le ne) nodup

/-- A kept row is where it was in the collection before. -/
theorem Kept.getElem?_oldOrder {k : Nat} {row : LongestCommonSubsequenceCalculator.Row}
    (kept : Kept prevRows nextRows rows deletions removed insertions)
    (here : (oldOrder rows)[k]? = some row) :
    prevRows[row.tvIndex]? = some (some row.rowIndex) ∧
      row.tvIndex ∈ rows.map KeptRow.prevTvIndex := by
  obtain ⟨stays, among, same, place⟩ := mem_oldOrder.mp (List.mem_of_getElem? here)
  rw [← place, ← same]
  exact ⟨kept.old stays among, List.mem_map_of_mem among⟩

/-- A place before and a place after are those of a row that stays. -/
def Stays (rows : List KeptRow) (pair : Nat → Nat → Prop) (source target : Nat) : Prop :=
  ∃ k l row stays, pair k l ∧ (oldOrder rows)[k]? = some row ∧ row.tvIndex = source ∧
    rows[l]? = some stays ∧ stays.tvIndex = target

/-- **The rows that stay**: the script of deletions and insertions keeps the paired rows. -/
theorem Kept.keeps {pair : Nat → Nat → Prop} {aligned : IndexSet × IndexSet}
    (kept : Kept prevRows nextRows rows deletions removed insertions)
    (aligns : Aligns (oldOrder rows) rows deletions insertions pair aligned) :
    (script (aligned.1.addSet removed) aligned.2).Keeps prevRows (nextRows.map some)
      (Stays rows pair) := by
  have before := pairwise_oldOrder kept.distinct
  refine ⟨fun source => ?_, fun target => ?_, ?_, ?_, ?_⟩
  · change source ∈ (aligned.1.addSet removed).toFinset ↔ _
    rw [IndexSet.toFinset_addSet, Finset.mem_union, aligns.deleted, or_right_comm, kept.gone]
    constructor
    · rintro (⟨inside, absent⟩ | ⟨k, row, here, rfl, unpaired⟩)
      · refine ⟨inside, ?_⟩
        rintro target ⟨k, l, row, stays, _, here, rfl, _⟩
        exact absent (kept.getElem?_oldOrder here).2
      · refine ⟨(List.getElem?_eq_some_iff.mp (kept.getElem?_oldOrder here).1).1, ?_⟩
        rintro target ⟨k', l, row', stays, paired, here', same, _⟩
        exact unpaired l (eq_of_pairwise before here' here same ▸ paired)
    · rintro ⟨inside, unkept⟩
      by_cases listed : source ∈ rows.map KeptRow.prevTvIndex
      · obtain ⟨stays, among, rfl⟩ := List.mem_map.mp listed
        have member : ⟨stays.rowIndex, stays.prevTvIndex⟩ ∈ oldOrder rows :=
          mem_oldOrder.mpr ⟨stays, among, rfl, rfl⟩
        obtain ⟨k, here⟩ := List.mem_iff_getElem?.mp member
        refine Or.inr ⟨k, _, here, rfl, fun l paired => ?_⟩
        obtain ⟨_, stays', _, there, _⟩ := aligns.same k l paired
        exact unkept _ ⟨k, l, _, stays', paired, here, rfl, there, rfl⟩
      · exact Or.inl ⟨inside, listed⟩
  · change target ∈ aligned.2.toFinset ↔ _
    rw [aligns.inserted, kept.inserted, List.length_map]
    constructor
    · rintro (⟨inside, absent⟩ | ⟨l, row, here, rfl, unpaired⟩)
      · refine ⟨inside, ?_⟩
        rintro source ⟨k, l, row, stays, _, _, _, there, rfl⟩
        exact absent (List.mem_map_of_mem (List.mem_of_getElem? there))
      · refine ⟨(List.getElem?_eq_some_iff.mp (kept.new row (List.mem_of_getElem? here))).1, ?_⟩
        rintro source ⟨k, l', row', stays, paired, _, _, there, same⟩
        exact unpaired k (eq_of_pairwise kept.sorted there here same ▸ paired)
    · rintro ⟨inside, unkept⟩
      by_cases listed : target ∈ rows.map KeptRow.tvIndex
      · obtain ⟨stays, among, rfl⟩ := List.mem_map.mp listed
        obtain ⟨l, there⟩ := List.mem_iff_getElem?.mp among
        refine Or.inr ⟨l, _, there, rfl, fun k paired => ?_⟩
        obtain ⟨row, _, here, _⟩ := aligns.same k l paired
        exact unkept _ ⟨k, l, row, stays, paired, here, rfl, there, rfl⟩
      · exact Or.inl ⟨inside, listed⟩
  · rintro _ _ ⟨k, l, row, stays, paired, here, rfl, there, rfl⟩
    refine ⟨(List.getElem?_eq_some_iff.mp (kept.getElem?_oldOrder here).1).1, ?_⟩
    rw [List.length_map]
    exact (List.getElem?_eq_some_iff.mp (kept.new stays (List.mem_of_getElem? there))).1
  · rintro _ _ _ _ ⟨k, l, row, stays, paired, here, rfl, there, rfl⟩
      ⟨k', l', row', stays', paired', here', rfl, there', rfl⟩
    rw [← lt_iff_of_pairwise before here here', ← lt_iff_of_pairwise kept.sorted there there']
    exact aligns.ordered k l k' l' paired paired'
  · rintro _ _ ⟨k, l, row, stays, paired, here, rfl, there, rfl⟩
    obtain ⟨row', stays', here', there', same⟩ := aligns.same k l paired
    rw [here, Option.some.injEq] at here'
    rw [there, Option.some.injEq] at there'
    subst here' there'
    rw [(kept.getElem?_oldOrder here).1, List.getElem?_map,
      kept.new stays (List.mem_of_getElem? there), same]
    rfl

/-- Added one by one, the places of the items to be kept are in the set. -/
theorem mem_foldl_addIf {β : Type*} {keep : β → Bool} {place : β → Nat} {items : List β}
    {set : IndexSet} {index : Nat} :
    index ∈ (items.foldl (fun set item => if keep item then set.add (place item) else set)
        set).toFinset ↔
      index ∈ set.toFinset ∨ ∃ item ∈ items, keep item = true ∧ place item = index := by
  induction items generalizing set with
  | nil => simp
  | cons item rest ih =>
      rw [List.foldl_cons, ih, List.exists_mem_cons_iff]
      by_cases kept : keep item = true
      · rw [if_pos kept, IndexSet.toFinset_add, Finset.mem_insert]
        grind
      · rw [if_neg kept]
        grind

/-- **What is calculated** keeps rows of both collections in order, and knows of the rows that
stay whether they changed. -/
theorem calculate_spec (order : SortByRow) (prevRows : List (Option Nat)) (nextRows : List Nat)
    (rowDidChange : Nat → Bool) :
    let changes := calculateBy order prevRows nextRows rowDidChange
    ∃ stays, (script changes.deletions changes.insertions).Keeps prevRows (nextRows.map some)
      stays ∧
      changes.moves = [] ∧
      (∀ target ∈ changes.modifications.toFinset, target < nextRows.length) ∧
      ∀ source target row, stays source target → nextRows[target]? = some row →
        (target ∈ changes.modifications.toFinset ↔ rowDidChange row = true) := by
  intro changes
  have kept := kept_matchRows order prevRows nextRows
  dsimp only at kept
  generalize same : readOld 0 IndexSet.clear prevRows = old at kept
  generalize same' : matchRows (order.sort old.2) (order.sort (readNew nextRows)) IndexSet.clear
    IndexSet.clear = matched at kept
  have modified : ∀ target, target ∈ changes.modifications.toFinset ↔
      ∃ row ∈ keptRows matched.1, rowDidChange row.rowIndex = true ∧ row.tvIndex = target := by
    intro target
    simp only [changes, calculateBy, same, same']
    rw [mem_foldl_addIf, IndexSet.toFinset_clear]
    exact or_iff_right (Finset.notMem_empty _)
  obtain ⟨pair, aligns⟩ := @aligns_calculateMovesSorted (keptRows matched.1) old.1 matched.2.2
    changes.modifications
  refine ⟨Stays (keptRows matched.1) pair, ?_, rfl, fun target member => ?_,
    fun source target row stays here => ?_⟩
  · have keeps := kept.keeps aligns
    simpa only [changes, calculateBy, same, same'] using keeps
  · obtain ⟨row, among, _, rfl⟩ := (modified target).mp member
    exact (List.getElem?_eq_some_iff.mp (kept.new row among)).1
  · obtain ⟨k, l, _, row', _, _, _, there, rfl⟩ := stays
    have among := List.mem_of_getElem? there
    obtain rfl : row'.rowIndex = row := Option.some.inj ((kept.new row' among).symm.trans here)
    rw [modified]
    constructor
    · rintro ⟨other, among', changes, place⟩
      obtain ⟨l', there'⟩ := List.mem_iff_getElem?.mp among'
      obtain rfl := eq_of_pairwise kept.sorted there' there place
      rwa [← Option.some.inj (there'.symm.trans there)]
    · exact fun changes => ⟨row', among, changes, rfl⟩

/-- **The calculated changes** lead from the collection before to the one after, and the rows
that stay are modified as the table's are. -/
theorem calculate_tracks (order : SortByRow) {α : Type*} {old new : List α} {changed : α → Prop}
    {rowDidChange : Nat → Bool} (lengths : prevRows.length = old.length)
    (lengths' : nextRows.length = new.length)
    (found : ∀ source target row : Nat, prevRows[source]? = some (some row) →
      nextRows[target]? = some row → old[source]? = new[target]?)
    (changes : ∀ (target row : Nat) (item : α), nextRows[target]? = some row →
      new[target]? = some item → (rowDidChange row = true ↔ changed item)) :
    Tracks (calculateBy order prevRows nextRows rowDidChange) old new changed := by
  obtain ⟨stays, keeps, moves, within, modified⟩ :=
    calculate_spec order prevRows nextRows rowDidChange
  have row : ∀ {source target}, stays source target → ∃ row,
      prevRows[source]? = some (some row) ∧ nextRows[target]? = some row := by
    intro source target pair
    have inside := (keeps.inside source target pair).2
    rw [List.length_map] at inside
    refine ⟨nextRows[target], ?_, List.getElem?_eq_getElem inside⟩
    rw [keeps.same source target pair, List.getElem?_map, List.getElem?_eq_getElem inside]
    rfl
  have leads := keeps.congr lengths (by rw [List.length_map, lengths']) fun source target pair => by
    obtain ⟨row, before, after⟩ := row pair
    exact found source target row before after
  refine ⟨⟨leads.describes, ?_, ?_, ?_⟩, fun target member => lengths' ▸ within target member,
    fun source target item follows here => ?_⟩
  · rw [moves]
    exact ⟨nofun, nofun, nofun, nofun⟩
  · rw [moves]
    exact List.nodup_nil
  · rw [moves]
    exact nofun
  · rw [CollectionChangeBuilder.Follows, moves] at follows
    rcases follows with ⟨free, rfl⟩ | moved
    · have before := (leads.describes.getElem?_of_notMem free).symm.trans here
      have pair := leads.kept_of_notMem free (List.getElem?_eq_some_iff.mp before).1
      obtain ⟨row, _, after⟩ := row pair
      exact (modified _ _ row pair after).trans (changes _ row item after here)
    · cases moved

/-- **What is calculated is right.** Whatever the rows before, of which some may be gone, and the
rows after, and in whatever order equal rows are sorted, what is delivered leads from those to
these, and refreshes exactly what is kept and changed. -/
theorem calculate_describes (order : SortByRow) (prevRows : List (Option Nat))
    (nextRows : List Nat) (rowDidChange : Nat → Bool) :
    let edits := (calculateBy order prevRows nextRows rowDidChange).finalize.edits
    edits.Describes prevRows (nextRows.map some) ∧ ∀ index, index ∈ edits.modifications ↔
      index ∉ edits.deletions ∧
        ∃ row, prevRows[index]? = some (some row) ∧ rowDidChange row = true := by
  intro edits
  let changed (item : Option Nat) : Prop := ∃ row, item = some row ∧ rowDidChange row = true
  have tracks : Tracks (calculateBy order prevRows nextRows rowDidChange) prevRows
      (nextRows.map some) changed := by
    refine calculate_tracks order rfl (List.length_map _).symm
      (fun source target row before after => ?_) fun target row item after here => ?_
    · rw [before, List.getElem?_map, after]
      rfl
    · rw [List.getElem?_map, after] at here
      obtain rfl : some row = item := Option.some.inj here
      constructor
      · intro changes
        exact ⟨row, rfl, changes⟩
      · intro changes
        obtain ⟨_, same, changes⟩ := changes
        exact Option.some.inj same ▸ changes
  refine ⟨tracks.describes_finalize, fun index => tracks.mem_edits_modifications.trans ?_⟩
  refine and_congr_right fun _ => ?_
  constructor
  · intro kept
    obtain ⟨_, here, row, rfl, changes⟩ := kept
    exact ⟨row, here, changes⟩
  · intro kept
    obtain ⟨row, here, changes⟩ := kept
    exact ⟨some row, here, row, rfl, changes⟩

end Calculated

/-! ## When no row has to be put back -/

section Minimal

/-- **When no row is twice in a collection**, it makes no difference how the rows are sorted. -/
theorem calculateBy_eq (order : SortByRow) {prevRows : List (Option Nat)} {nextRows : List Nat}
    (distinct : (prevRows.filterMap id).Nodup) (distinct' : nextRows.Nodup)
    (rowDidChange : Nat → Bool) :
    calculateBy order prevRows nextRows rowDidChange =
      calculate prevRows nextRows rowDidChange := by
  have old : ((readOld 0 IndexSet.clear prevRows).2.map RowInfo.rowIndex).Nodup := by
    rwa [rowIndex_readOld]
  have new : ((readNew nextRows).map RowInfo.rowIndex).Nodup := by
    rwa [rowIndex_readNew]
  rw [calculate, calculateBy, calculateBy]
  dsimp only
  rw [sort_eq old, sort_eq new]

variable {prevRows : List (Option Nat)} {nextRows : List Nat} {rows : List KeptRow}

/-- Rows that keep their order have no difference in their orders. -/
theorem firstDifference_eq_none (sorted : (rows.map KeptRow.prevTvIndex).Pairwise (· < ·)) :
    firstDifference (oldOrder rows) rows = Option.none := by
  have same : oldOrder rows = rows.map fun row => ⟨row.rowIndex, row.prevTvIndex⟩ := by
    refine List.Pairwise.insertionSort_eq ?_
    exact List.pairwise_map.mpr ((List.pairwise_map.mp sorted).imp Or.inl)
  rw [firstDifference, List.findIdx?_eq_none_iff]
  intro pair member
  obtain ⟨k, inside, rfl⟩ := List.getElem_of_mem member
  simp [same]

/-- Kept rows whose order is that of the collection before need not be put back. -/
theorem calculateMovesSorted_of_sorted {modifications deletions insertions : IndexSet}
    (sorted : (rows.map KeptRow.prevTvIndex).Pairwise (· < ·)) :
    calculateMovesSorted rows modifications deletions insertions = (deletions, insertions) := by
  rw [calculateMovesSorted, firstDifference_eq_none sorted]

/-- **When no row has to be put back**, because the rows of both collections are in the same
order there, only rows that are gone are deleted, and only new ones are inserted. -/
theorem calculate_minimal (order : SortByRow) {rowDidChange : Nat → Bool}
    (distinct : (prevRows.filterMap id).Nodup)
    (distinct' : nextRows.Nodup)
    (ordered : ∀ source target row source' target' row' : Nat,
      prevRows[source]? = some (some row) → nextRows[target]? = some row →
      prevRows[source']? = some (some row') → nextRows[target']? = some row' →
      target < target' → source < source') :
    (∀ source, source ∈ (calculateBy order prevRows nextRows rowDidChange).deletions.toFinset ↔
      source < prevRows.length ∧ ∀ row, prevRows[source]? = some (some row) → row ∉ nextRows) ∧
    ∀ target, target ∈ (calculateBy order prevRows nextRows rowDidChange).insertions.toFinset ↔
      ∃ row, nextRows[target]? = some row ∧ some row ∉ prevRows := by
  have kept := kept_matchRows order prevRows nextRows
  have both := @mem_keptRows_matchRows prevRows nextRows IndexSet.clear IndexSet.clear
    IndexSet.clear order distinct distinct'
  dsimp only at kept
  generalize same : readOld 0 IndexSet.clear prevRows = old at kept both
  generalize same' : matchRows (order.sort old.2) (order.sort (readNew nextRows)) IndexSet.clear
    IndexSet.clear = matched at kept both
  have sorted : ((keptRows matched.1).map KeptRow.prevTvIndex).Pairwise (· < ·) := by
    refine List.pairwise_map.mpr ((List.pairwise_map.mp kept.sorted).imp_of_mem ?_)
    intro row row' member member' before
    exact ordered _ _ _ _ _ _ (kept.old row member) (kept.new row member) (kept.old row' member')
      (kept.new row' member') before
  have changes : (calculateBy order prevRows nextRows rowDidChange).deletions =
      old.1.addSet matched.2.1 ∧
      (calculateBy order prevRows nextRows rowDidChange).insertions = matched.2.2 := by
    simp only [calculateBy, same, same', calculateMovesSorted_of_sorted sorted, and_self]
  rw [changes.1, changes.2]
  refine ⟨fun source => ?_, fun target => ?_⟩
  · rw [IndexSet.toFinset_addSet, Finset.mem_union, kept.gone]
    refine and_congr_right fun inside => ?_
    constructor
    · intro unkept row before listed
      obtain ⟨target, after⟩ := List.mem_iff_getElem?.mp listed
      exact unkept (List.mem_map_of_mem (both before after))
    · intro gone listed
      obtain ⟨row, member, place⟩ := List.mem_map.mp listed
      exact gone row.rowIndex (place ▸ kept.old row member)
        (List.mem_of_getElem? (kept.new row member))
  · rw [kept.inserted]
    constructor
    · intro ⟨inside, unkept⟩
      refine ⟨_, List.getElem?_eq_getElem inside, fun listed => ?_⟩
      obtain ⟨source, before⟩ := List.mem_iff_getElem?.mp listed
      exact unkept (List.mem_map_of_mem (both before (List.getElem?_eq_getElem inside)))
    · intro ⟨row, after, fresh⟩
      refine ⟨(List.getElem?_eq_some_iff.mp after).1, fun listed => ?_⟩
      obtain ⟨info, member, place⟩ := List.mem_map.mp listed
      have there := kept.new info member
      rw [place, after] at there
      exact fresh (Option.some.inj there ▸ List.mem_of_getElem? (kept.old info member))

end Minimal

/-! ## Changes made one after the other -/

section Chain

variable {α : Type*} {old middle new : List α} {changed : α → Prop}
  {changes : CollectionChangeBuilder} {steps : List (CollectionChangeBuilder × (α → Prop))}

/-- Changes, and what changed in each, that lead from collection to collection. They have no
moves, as the changes of a sorted query have none: to clean up the moves is to count the
deletions before them, which the chunks of an index set may not count right. -/
inductive Chain : List α → List (CollectionChangeBuilder × (α → Prop)) → List α → Prop
  | nil (items : List α) : Chain items [] items
  | cons {old middle new : List α} {changes : CollectionChangeBuilder} {changed : α → Prop}
      {steps : List (CollectionChangeBuilder × (α → Prop))}
      (unmoved : changes.moves = []) (tracks : Tracks changes old middle changed)
      (rest : Chain middle steps new) : Chain old ((changes, changed) :: steps) new

/-- All changes of a chain, merged into those from before. -/
def mergeAll (changes : CollectionChangeBuilder)
    (steps : List (CollectionChangeBuilder × (α → Prop))) : CollectionChangeBuilder :=
  steps.foldl (fun accumulated step => accumulated.merge step.1) changes

/-- Merged changes track all that changed on the way; the induction is on the changes that are
left. -/
theorem Chain.tracks (chain : Chain middle steps new) (tracks : Tracks changes old middle changed) :
    Tracks (mergeAll changes steps) old new fun item =>
      changed item ∨ ∃ step ∈ steps, step.2 item := by
  induction chain generalizing changes changed with
  | nil items =>
      refine tracks.congr fun item _ => ?_
      simp
  | cons _ tracks' rest ih =>
      refine (ih (tracks.merge tracks')).congr fun item _ => ?_
      rw [List.exists_mem_cons_iff, or_assoc]

/-- **However many changes are merged**, what is delivered leads from the first collection to
the last one, and refreshes what is kept and changed in any of them. -/
theorem mergeAll_describes (chain : Chain old steps new) :
    let edits := (mergeAll CollectionChangeBuilder.none steps).finalize.edits
    edits.Describes old new ∧ ∀ index, index ∈ edits.modifications ↔
      index ∉ edits.deletions ∧ ∃ item, old[index]? = some item ∧ ∃ step ∈ steps, step.2 item := by
  intro edits
  have tracks := chain.tracks (tracks_none old)
  refine ⟨tracks.describes_finalize, fun index => ?_⟩
  have listed := @Tracks.mem_edits_modifications _ _ _ _ _ tracks index
  simp only [false_or] at listed
  exact listed

/-- A row is inserted and another one modified, then the new row is deleted and the other one
modified: what stays is refreshed. -/
theorem mergeAll_describes_replaced :
    let first := calculate [some 4, some 5] [6, 4, 5] (· = 5)
    let second := calculate [Option.none, some 4, some 5] [4, 5] (· = 4)
    let edits := (mergeAll CollectionChangeBuilder.none
      [(first, (· = 5)), (second, (· = 4))]).finalize.edits
    edits.Describes [4, 5] [4, 5] ∧
      ∀ index, index ∈ edits.modifications ↔ index ∉ edits.deletions ∧ index < 2 := by
  intro first second edits
  have found : ∀ (gone : Nat → Bool) (old new : List Nat) (source target row : Nat),
      (old.map fun row => if gone row then Option.none else some row)[source]? = some (some row) →
      new[target]? = some row → old[source]? = new[target]? := by
    intro gone old new source target row before after
    rw [List.getElem?_map, Option.map_eq_some_iff] at before
    obtain ⟨item, here, same⟩ := before
    obtain ⟨_, same⟩ := Option.ite_none_left_eq_some.mp same
    rw [here, same, after]
  have changes : ∀ (new : List Nat) (row' target row item : Nat), new[target]? = some row →
      new[target]? = some item → (decide (row = row') = true ↔ item = row') := by
    intro new row' target row item after here
    rw [Option.some.inj (here.symm.trans after), decide_eq_true_iff]
  have tracks : Tracks first [4, 5] [6, 4, 5] (· = 5) :=
    calculate_tracks .stable rfl rfl (found (fun _ => false) [4, 5] _) (changes _ 5)
  have tracks' : Tracks second [6, 4, 5] [4, 5] (· = 4) :=
    calculate_tracks .stable rfl rfl (found (· = 6) [6, 4, 5] _) (changes _ 4)
  obtain ⟨describes, modified⟩ := mergeAll_describes (.cons rfl tracks (.cons rfl tracks' (.nil _)))
  refine ⟨describes, fun index => (modified index).trans (and_congr_right fun _ => ?_)⟩
  constructor
  · intro refreshed
    obtain ⟨_, here, _⟩ := refreshed
    exact (List.getElem?_eq_some_iff.mp here).1
  · intro inside
    cases index with
    | zero => exact ⟨4, rfl, _, List.mem_cons_of_mem _ List.mem_cons_self, rfl⟩
    | succ index =>
        obtain rfl : index = 0 := by omega
        exact ⟨5, rfl, _, List.mem_cons_self, rfl⟩

end Chain

end CollectionChangeBuilder

end EventTalks.Realm

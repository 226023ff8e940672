import EventTalks.Realm.ChangeBuilder

/-! # The changes of a table

The transaction log of a table appends rows, removes a row by moving the last one over it,
and sets values. The changes read from it tell, for every row of the table before, whether
and where it is after: rows stay in their slots unless they are moved, and a slot whose row
is gone counts as deleted and inserted (`EventTalks.Realm.RowTracks`). Rows are known by an
identity that no two of them share.
-/

namespace EventTalks.Realm

open Foundation

variable {α : Type*}

/-- The last index of a set is an index. -/
def IndexSet.endsWith (set : IndexSet) (index : Nat) : Bool :=
  set.ranges.getLast?.any fun range => range.second = index + 1

/-- A set without later indices ends with those that it has. -/
theorem IndexSet.endsWith_iff {set : IndexSet} {index : Nat}
    (below : ∀ other ∈ set.toFinset, other ≤ index) :
    set.endsWith index = true ↔ index ∈ set.toFinset := by
  rw [endsWith, Option.any_eq_true]
  constructor
  · intro ⟨range, last, ends⟩
    have occupied := set.separated.occupied (List.mem_of_getLast? last)
    rw [mem_toFinset]
    refine ⟨range, List.mem_of_getLast? last, ?_⟩
    have := of_decide_eq_true ends
    simp only [Range.Covers]
    omega
  · intro member
    obtain ⟨range, among, covers⟩ := mem_toFinset.mp member
    cases last : set.ranges.getLast? with
    | none => simp [List.getLast?_eq_none_iff.mp last] at among
    | some ends =>
        refine ⟨ends, rfl, decide_eq_true ?_⟩
        have occupied := set.separated.occupied (List.mem_of_getLast? last)
        have inside := (set.separated.lt_of_getLast? last).2 index ⟨range, among, covers⟩
        have final := below (ends.second - 1) (mem_toFinset.mpr
          ⟨ends, List.mem_of_getLast? last, by simp [Range.Covers]; omega⟩)
        omega

namespace CollectionChangeBuilder

/-- The old index that a new index is mapped to. -/
def movedFrom (mapping : List (Nat × Nat)) (index : Nat) : Option Nat := mapping.lookup index

/-- The mapping without a new index. -/
def unmap (mapping : List (Nat × Nat)) (index : Nat) : List (Nat × Nat) :=
  mapping.filter fun entry => entry.1 ≠ index

/-- A new index is mapped to an old one. -/
def mapTo (mapping : List (Nat × Nat)) (index origin : Nat) : List (Nat × Nat) :=
  (index, origin) :: unmap mapping index

/-- Rows are inserted. -/
def insert (changes : CollectionChangeBuilder) (index count : Nat) (positive : 0 < count) :
    CollectionChangeBuilder where
  modifications := changes.modifications.shiftForInsertAt index count positive
  deletions := changes.deletions
  insertions := changes.insertions.insertAt index count
  moves := changes.moves.map fun move =>
    if move.target ≥ index then ⟨move.source, move.target + count⟩ else move
  moveMapping := changes.moveMapping.map fun entry =>
    if entry.1 ≥ index then (entry.1 + count, entry.2) else entry

def modify (changes : CollectionChangeBuilder) (index : Nat) : CollectionChangeBuilder :=
  { changes with modifications := changes.modifications.add index }

/-- The last row is removed. -/
def removeLast (changes : CollectionChangeBuilder) (row : Nat) : CollectionChangeBuilder :=
  let (unshifted, insertions) := changes.insertions.eraseOrUnshift row
  { changes with
    insertions
    deletions := match unshifted with
      | some unshifted => (changes.deletions.addShifted unshifted).2
      | .none => changes.deletions
    moveMapping := unmap changes.moveMapping row
    modifications := changes.modifications.remove row }

/-- What is modified after the last row was moved over another one. -/
def moveModified (modifications : IndexSet) (row last : Nat) : IndexSet :=
  if modifications.contains last then (modifications.remove last).add row
  else modifications.remove row

/-- The moves when the last row is moved over another one: two moves of a row are a single
one, and a move to the row that is removed is none. -/
def collapse (changes : CollectionChangeBuilder) (row last : Nat) : List (Nat × Nat) :=
  match if changes.insertions.endsWith last then movedFrom changes.moveMapping last
    else .none with
  | some origin => unmap (mapTo changes.moveMapping row origin) last
  | .none =>
      if changes.insertions.contains row then unmap changes.moveMapping row
      else changes.moveMapping

/-- The last row leaves its slot, which is no longer told of when the row was inserted. -/
def leaveLast (changes : CollectionChangeBuilder) (row last : Nat) : CollectionChangeBuilder :=
  if changes.insertions.endsWith last then
    { changes with
      insertions := changes.insertions.remove last
      moveMapping := changes.collapse row last }
  else
    let (shifted, deletions) := changes.deletions.addShifted (changes.insertions.unshift last)
    { changes with
      deletions
      moveMapping := mapTo (changes.collapse row last) row shifted }

/-- The last row is moved over another one. -/
def moveOver (changes : CollectionChangeBuilder) (row last : Nat) : CollectionChangeBuilder :=
  if row = last then changes.removeLast row
  else
    let modifications := moveModified changes.modifications row last
    let left := changes.leaveLast row last
    -- a row that was inserted is not counted as deleted
    if changes.insertions.contains row then { left with modifications }
    else { left with
      modifications
      deletions := (left.deletions.addShifted (left.insertions.unshift row)).2
      insertions := left.insertions.add row }

/-- A row that was moved back is no change; the other moves are listed. -/
def parseMoves : List (Nat × Nat) → IndexSet → IndexSet → List Move × IndexSet × IndexSet
  | [], deletions, insertions => ([], deletions, insertions)
  | (index, origin) :: rest, deletions, insertions =>
      if index = origin then parseMoves rest (deletions.remove origin) (insertions.remove index)
      else
        let (moves, deletions, insertions) := parseMoves rest deletions insertions
        (⟨origin, index⟩ :: moves, deletions, insertions)

/-- All instructions have been read: the moves are listed by where they begin. -/
def parseComplete (changes : CollectionChangeBuilder) : CollectionChangeBuilder :=
  let (moves, deletions, insertions) :=
    parseMoves changes.moveMapping changes.deletions changes.insertions
  { changes with
    deletions
    insertions
    moves := (changes.moves ++ moves).insertionSort fun first second =>
      first.source ≤ second.source
    moveMapping := [] }

/-- What is mapped besides an index. -/
theorem mem_unmap {mapping : List (Nat × Nat)} {index place origin : Nat} :
    (place, origin) ∈ unmap mapping index ↔ (place, origin) ∈ mapping ∧ place ≠ index := by
  simp [unmap]

/-- What is mapped once an index is mapped anew. -/
theorem mem_mapTo {mapping : List (Nat × Nat)} {index origin place source : Nat} :
    (place, source) ∈ mapTo mapping index origin ↔
      place = index ∧ source = origin ∨ (place, source) ∈ mapping ∧ place ≠ index := by
  rw [mapTo, List.mem_cons, mem_unmap, Prod.mk.injEq]

/-- No place is mapped twice without one. -/
theorem keys_unmap {mapping : List (Nat × Nat)} (keys : (mapping.map Prod.fst).Nodup)
    (index : Nat) : ((unmap mapping index).map Prod.fst).Nodup :=
  keys.sublist (List.filter_sublist.map _)

/-- No place is mapped twice with one mapped anew. -/
theorem keys_mapTo {mapping : List (Nat × Nat)} (keys : (mapping.map Prod.fst).Nodup)
    (index origin : Nat) : ((mapTo mapping index origin).map Prod.fst).Nodup := by
  rw [mapTo, List.map_cons, List.nodup_cons]
  refine ⟨fun member => ?_, keys_unmap keys index⟩
  obtain ⟨⟨place, source⟩, among, same⟩ := List.mem_map.mp member
  exact (mem_unmap.mp among).2 same

/-- The origin that is looked up is the one that is mapped. -/
theorem movedFrom_eq_some_iff {mapping : List (Nat × Nat)} (keys : (mapping.map Prod.fst).Nodup)
    {index origin : Nat} : movedFrom mapping index = some origin ↔ (index, origin) ∈ mapping := by
  induction mapping with
  | nil => simp [movedFrom]
  | cons entry rest ih =>
      obtain ⟨new, distinct⟩ := List.nodup_cons.mp keys
      obtain ⟨place, source⟩ := entry
      rw [movedFrom, List.lookup_cons, List.mem_cons, Prod.mk.injEq]
      by_cases here : index = place
      · subst here
        have absent : (index, origin) ∉ rest := fun member =>
          new (List.mem_map.mpr ⟨_, member, rfl⟩)
        simp [absent, eq_comm]
      · simp only [beq_eq_false_iff_ne.mpr here, here, false_and, false_or]
        exact ih distinct

end CollectionChangeBuilder

open CollectionChangeBuilder

/-- What deletions, insertions and moves say of a table, slot by slot. A slot's old row is
gone where it was deleted or never was, and then the slot's new row was inserted or is not
there; a row that was moved is told with its old slot and its new one. -/
structure SlotTracks (deletions insertions : IndexSet) (goes : Nat → Nat → Prop)
    (old new : List α) : Prop where
  deleted : ∀ slot ∈ deletions.toFinset, slot < old.length
  inserted : ∀ slot ∈ insertions.toFinset, slot < new.length
  slots : ∀ slot, slot ∈ deletions.toFinset ∨ old.length ≤ slot ↔
    slot ∈ insertions.toFinset ∨ new.length ≤ slot
  kept : ∀ slot, slot ∉ deletions.toFinset → slot < old.length → old[slot]? = new[slot]?
  moved : ∀ source target, goes source target →
    source ∈ deletions.toFinset ∧ target ∈ insertions.toFinset ∧ old[source]? = new[target]?
  complete : ∀ target ∈ insertions.toFinset, ∀ item, new[target]? = some item → item ∈ old →
    ∃ source, goes source target
  distinct : old.Nodup ∧ new.Nodup

/-- What changes say of a table while its log is read: moves are kept by the new slots, and
a row that was modified is known as such. -/
structure RowTracks (changes : CollectionChangeBuilder) (old new : List α) (changed : α → Prop) :
    Prop extends SlotTracks changes.deletions changes.insertions
      (fun source target => (target, source) ∈ changes.moveMapping) old new where
  keys : (changes.moveMapping.map Prod.fst).Nodup
  unlisted : changes.moves = []
  modified : ∀ slot, slot ∈ changes.modifications.toFinset ↔
    ∃ item, new[slot]? = some item ∧ changed item

namespace SlotTracks

variable {deletions insertions : IndexSet} {goes : Nat → Nat → Prop} {old new : List α}
  {slot : Nat}

/-- A row that was not inserted is in its old slot. -/
theorem free_deletions (tracks : SlotTracks deletions insertions goes old new)
    (free : slot ∉ insertions.toFinset) (inside : slot < new.length) :
    slot ∉ deletions.toFinset ∧ slot < old.length := by
  have gone := (tracks.slots slot).not
  rw [not_or, not_or, Nat.not_le, Nat.not_le] at gone
  exact gone.mpr ⟨free, inside⟩

/-- A slot that is not deleted is not inserted, and still there. -/
theorem free_insertions (tracks : SlotTracks deletions insertions goes old new)
    (free : slot ∉ deletions.toFinset) (inside : slot < old.length) :
    slot ∉ insertions.toFinset ∧ slot < new.length := by
  have gone := (tracks.slots slot).not
  rw [not_or, not_or, Nat.not_le, Nat.not_le] at gone
  exact gone.mp ⟨free, inside⟩

/-- Below a slot that is in both tables, the same slots are deleted and inserted. -/
theorem filter_below (tracks : SlotTracks deletions insertions goes old new)
    (before : slot < old.length) (after : slot < new.length) :
    deletions.toFinset.filter (· < slot) = insertions.toFinset.filter (· < slot) := by
  ext other
  have slots := tracks.slots other
  simp only [Finset.mem_filter]
  refine and_congr_left fun below => ?_
  constructor
  · exact fun member => (slots.mp (Or.inl member)).resolve_right (by omega)
  · exact fun member => (slots.mpr (Or.inl member)).resolve_right (by omega)

/-- **Rows stay in their slots**: a row that was not inserted is found where it is. -/
theorem shift_unshift_of_free (tracks : SlotTracks deletions insertions goes old new)
    (free : slot ∉ insertions.toFinset) (inside : slot < new.length) :
    Positions.shift deletions.toFinset (Positions.unshift insertions.toFinset slot) = slot := by
  obtain ⟨kept, before⟩ := tracks.free_deletions free inside
  exact Positions.shift_unshift_of_filter_eq kept (tracks.filter_below before inside)

/-- A slot that is not deleted stays where it is. -/
theorem shift_unshift_of_kept (tracks : SlotTracks deletions insertions goes old new)
    (kept : slot ∉ deletions.toFinset) (inside : slot < old.length) :
    Positions.shift insertions.toFinset (Positions.unshift deletions.toFinset slot) = slot := by
  obtain ⟨free, after⟩ := tracks.free_insertions kept inside
  exact Positions.shift_unshift_of_filter_eq free (tracks.filter_below inside after).symm

end SlotTracks

namespace RowTracks

variable {changes : CollectionChangeBuilder} {old new : List α} {changed : α → Prop} {slot : Nat}

/-- Nothing has changed yet. -/
theorem none {rows : List α} (distinct : rows.Nodup) :
    RowTracks CollectionChangeBuilder.none rows rows fun _ => False where
  deleted := by simp [CollectionChangeBuilder.none]
  inserted := by simp [CollectionChangeBuilder.none]
  slots slot := by simp [CollectionChangeBuilder.none]
  kept slot free inside := rfl
  moved := by simp [CollectionChangeBuilder.none]
  complete := by simp [CollectionChangeBuilder.none]
  distinct := ⟨distinct, distinct⟩
  keys := List.nodup_nil
  unlisted := rfl
  modified := by simp [CollectionChangeBuilder.none]

/-- Rows are tracked by what changed. -/
theorem congr {changed' : α → Prop} (tracks : RowTracks changes old new changed)
    (same : ∀ item, changed item ↔ changed' item) : RowTracks changes old new changed' := by
  obtain rfl : changed = changed' := funext fun item => propext (same item)
  exact tracks

/-- **Setting a value** marks its row. -/
theorem modify {item : α} (tracks : RowTracks changes old new changed)
    (here : new[slot]? = some item) :
    RowTracks (changes.modify slot) old new fun other => changed other ∨ other = item where
  toSlotTracks := tracks.toSlotTracks
  keys := tracks.keys
  unlisted := tracks.unlisted
  modified index := by
    rw [CollectionChangeBuilder.modify, IndexSet.toFinset_add, Finset.mem_insert, tracks.modified]
    constructor
    · rintro (rfl | ⟨other, there, before⟩)
      · exact ⟨item, here, Or.inr rfl⟩
      · exact ⟨other, there, Or.inl before⟩
    · rintro ⟨other, there, before | rfl⟩
      · exact Or.inr ⟨other, there, before⟩
      · refine Or.inl ?_
        obtain ⟨inside, found⟩ := List.getElem?_eq_some_iff.mp here
        obtain ⟨inside', found'⟩ := List.getElem?_eq_some_iff.mp there
        exact (tracks.distinct.2.getElem_inj_iff).mp (found'.trans found.symm)

/-- **Appending rows** inserts their slots. -/
theorem insert {rows : List α} (tracks : RowTracks changes old new changed)
    (positive : 0 < rows.length) (fresh : ∀ item ∈ rows, item ∉ old ∧ ¬ changed item)
    (distinct : (new ++ rows).Nodup) :
    RowTracks (changes.insert new.length rows.length positive) old (new ++ rows) changed := by
  have inserted : ∀ slot,
      slot ∈ (changes.insert new.length rows.length positive).insertions.toFinset ↔
      slot ∈ changes.insertions.toFinset ∨ new.length ≤ slot ∧ slot < new.length + rows.length := by
    intro slot
    rw [CollectionChangeBuilder.insert, IndexSet.toFinset_insertAt, Positions.mem_insertAt,
      Finset.mem_Ico, Positions.unshift_Ico]
    have below := tracks.inserted slot
    by_cases early : slot < new.length
    · rw [if_pos early]
      exact or_comm
    · have := tracks.inserted (slot - rows.length)
      grind
  have mapping : (changes.insert new.length rows.length positive).moveMapping =
      changes.moveMapping := by
    refine (List.map_congr_left fun entry member => ?_).trans (List.map_id _)
    have := tracks.inserted entry.1 (tracks.moved entry.2 entry.1 member).2.1
    rw [if_neg (by omega)]
    rfl
  have before : ∀ slot < new.length, (new ++ rows)[slot]? = new[slot]? := fun slot below =>
    List.getElem?_append_left below
  refine ⟨⟨tracks.deleted, fun slot member => ?_, fun slot => ?_, fun slot kept inside => ?_,
    fun origin index member => ?_, fun index member item here among => ?_,
    ⟨tracks.distinct.1, distinct⟩⟩, ?_, ?_, fun slot => ?_⟩
  · rw [List.length_append]
    rcases (inserted slot).mp member with early | appended
    · exact (tracks.inserted slot early).trans_le (Nat.le_add_right _ _)
    · exact appended.2
  · rw [inserted, List.length_append]
    have := tracks.slots slot
    change slot ∈ changes.deletions.toFinset ∨ _ ↔ _
    grind
  · obtain ⟨free, below⟩ := tracks.free_insertions kept inside
    rw [before slot below]
    exact tracks.kept slot kept inside
  · rw [mapping] at member
    obtain ⟨gone, listed, same⟩ := tracks.moved origin index member
    refine ⟨gone, (inserted index).mpr (Or.inl listed), ?_⟩
    rwa [before index (tracks.inserted index listed)]
  · rw [mapping]
    rcases (inserted index).mp member with early | appended
    · rw [before index (tracks.inserted index early)] at here
      exact tracks.complete index early item here among
    · rw [List.getElem?_append_right appended.1] at here
      exact absurd among (fresh item (List.mem_of_getElem? here)).1
  · rw [mapping]
    exact tracks.keys
  · rw [CollectionChangeBuilder.insert, tracks.unlisted, List.map_nil]
  · rw [CollectionChangeBuilder.insert, IndexSet.toFinset_shiftForInsertAt,
      Positions.mem_shiftForInsertAt, Finset.mem_Ico, Positions.unshift_Ico]
    by_cases early : slot < new.length
    · rw [if_pos early, before slot early, tracks.modified]
      exact and_iff_right (by omega)
    · constructor
      · intro ⟨outside, shifted⟩
        obtain ⟨item, here, _⟩ := (tracks.modified _).mp shifted
        have inside := (List.getElem?_eq_some_iff.mp here).1
        grind
      · intro ⟨item, here, changes⟩
        rw [List.getElem?_append_right (Nat.le_of_not_lt early)] at here
        exact absurd changes (fresh item (List.mem_of_getElem? here)).2

/-! ## Removing a row -/

/-- What removing a row leaves of changes, when the last row takes its slot. -/
structure MovedOver (changes : CollectionChangeBuilder) (row last : Nat)
    (after : CollectionChangeBuilder) : Prop where
  deletions : ∀ slot, slot ∈ after.deletions.toFinset ↔ slot ∈ changes.deletions.toFinset ∨
    (slot = row ∨ slot = last) ∧ slot ∉ changes.insertions.toFinset
  insertions : ∀ slot, slot ∈ after.insertions.toFinset ↔ slot ≠ last ∧
    (slot = row ∨ slot ∈ changes.insertions.toFinset)
  mapping : ∀ index origin, (index, origin) ∈ after.moveMapping ↔ index ≠ last ∧
    if index = row then (last, origin) ∈ changes.moveMapping ∨
      last ∉ changes.insertions.toFinset ∧ origin = last
    else (index, origin) ∈ changes.moveMapping
  keys : (after.moveMapping.map Prod.fst).Nodup
  modifications : ∀ slot, slot ∈ after.modifications.toFinset ↔ slot ≠ last ∧
    if slot = row then last ∈ changes.modifications.toFinset
    else slot ∈ changes.modifications.toFinset

/-- The last row is removed, and none is moved. -/
theorem MovedOver.removeLast (tracks : RowTracks changes old new changed)
    (last : slot + 1 = new.length) : MovedOver changes slot slot (changes.removeLast slot) := by
  have below := tracks.inserted
  refine ⟨fun other => ?_, fun other => ?_, fun index origin => ?_, keys_unmap tracks.keys slot,
    fun other => ?_⟩
  · rw [or_self, CollectionChangeBuilder.removeLast, IndexSet.eraseOrUnshift_eq]
    by_cases listed : slot ∈ changes.insertions.toFinset
    · simp only [if_pos (IndexSet.contains_iff.mpr listed)]
      grind
    · simp only [if_neg (mt IndexSet.contains_iff.mp listed), IndexSet.toFinset_addShifted,
        IndexSet.unshift_eq, tracks.shift_unshift_of_free listed (by omega), Finset.mem_insert]
      grind
  · rw [CollectionChangeBuilder.removeLast, IndexSet.eraseOrUnshift_eq]
    simp only [IndexSet.toFinset_eraseAt, Positions.mem_eraseAt, Positions.shift_singleton]
    have := below (other + 1)
    have := below other
    grind
  · rw [CollectionChangeBuilder.removeLast, mem_unmap]
    grind
  · rw [CollectionChangeBuilder.removeLast, IndexSet.toFinset_remove, Finset.mem_erase]
    grind

/-- The row that is moved takes its modification with it. -/
theorem mem_moveModified {modifications : IndexSet} {row last : Nat} (apart : row ≠ last) :
    slot ∈ (moveModified modifications row last).toFinset ↔ slot ≠ last ∧
      if slot = row then last ∈ modifications.toFinset else slot ∈ modifications.toFinset := by
  rw [moveModified]
  by_cases listed : last ∈ modifications.toFinset
  · rw [if_pos (IndexSet.contains_iff.mpr listed), IndexSet.toFinset_add, IndexSet.toFinset_remove,
      Finset.mem_insert, Finset.mem_erase]
    grind
  · rw [if_neg (mt IndexSet.contains_iff.mp listed), IndexSet.toFinset_remove, Finset.mem_erase]
    grind

variable {row last : Nat}

/-- Moving over makes no move yet. -/
theorem moves_moveOver (changes : CollectionChangeBuilder) (row last : Nat) :
    (changes.moveOver row last).moves = changes.moves := by
  simp only [CollectionChangeBuilder.moveOver, CollectionChangeBuilder.leaveLast,
    CollectionChangeBuilder.removeLast]
  split
  · rfl
  · split <;> split <;> rfl

/-- No inserted slot is behind the last one. -/
theorem le_of_inserted (tracks : RowTracks changes old new changed) (ends : last + 1 = new.length) :
    ∀ other ∈ changes.insertions.toFinset, other ≤ last := fun other member => by
  have := tracks.inserted other member
  omega

/-- Moving the last row moves it from where it was. -/
theorem mem_collapse (tracks : RowTracks changes old new changed) (ends : last + 1 = new.length)
    (apart : row ≠ last) {index origin : Nat} :
    (index, origin) ∈ changes.collapse row last ↔ index ≠ last ∧
      if index = row then (last, origin) ∈ changes.moveMapping
      else (index, origin) ∈ changes.moveMapping := by
  have only : ∀ index origin, (index, origin) ∈ changes.moveMapping →
      index ∈ changes.insertions.toFinset := fun index origin member =>
    (tracks.moved origin index member).2.1
  have found : ∀ origin, (if changes.insertions.endsWith last then
      movedFrom changes.moveMapping last else Option.none) = some origin ↔
        (last, origin) ∈ changes.moveMapping := by
    intro origin
    by_cases inserted : last ∈ changes.insertions.toFinset
    · rw [if_pos ((IndexSet.endsWith_iff (tracks.le_of_inserted ends)).mpr inserted),
        movedFrom_eq_some_iff tracks.keys]
    · rw [if_neg (mt (IndexSet.endsWith_iff (tracks.le_of_inserted ends)).mp inserted)]
      exact iff_of_false nofun fun member => inserted (only _ _ member)
  rw [collapse]
  split
  · rename_i before moved
    have listed := (found before).mp moved
    have single : ∀ origin, (last, origin) ∈ changes.moveMapping → origin = before :=
      fun origin member => Option.some.inj (((found origin).mpr member).symm.trans moved)
    rw [mem_unmap, mem_mapTo]
    grind
  · rename_i none
    have unmoved : ∀ origin, (last, origin) ∉ changes.moveMapping := fun origin member => by
      rw [(found origin).mpr member] at none
      cases none
    by_cases inserted : row ∈ changes.insertions.toFinset
    · rw [if_pos (IndexSet.contains_iff.mpr inserted), mem_unmap]
      grind
    · rw [if_neg (mt IndexSet.contains_iff.mp inserted)]
      grind

/-- No place is mapped twice when moves are joined. -/
theorem keys_collapse (tracks : RowTracks changes old new changed) :
    ((changes.collapse row last).map Prod.fst).Nodup := by
  rw [collapse]
  split
  · exact keys_unmap (keys_mapTo tracks.keys _ _) _
  · split
    · exact keys_unmap tracks.keys _
    · exact tracks.keys

/-- The last row leaves its slot: an inserted one is taken back, an old one is deleted, and its
origin is mapped. -/
theorem MovedOver.leaveLast (tracks : RowTracks changes old new changed)
    (ends : last + 1 = new.length) (apart : row ≠ last) :
    (∀ slot, slot ∈ (changes.leaveLast row last).deletions.toFinset ↔
      slot ∈ changes.deletions.toFinset ∨ slot = last ∧ slot ∉ changes.insertions.toFinset) ∧
    (∀ slot, slot ∈ (changes.leaveLast row last).insertions.toFinset ↔
      slot ≠ last ∧ slot ∈ changes.insertions.toFinset) ∧
    (∀ index origin, (index, origin) ∈ (changes.leaveLast row last).moveMapping ↔ index ≠ last ∧
      if index = row then (last, origin) ∈ changes.moveMapping ∨
        last ∉ changes.insertions.toFinset ∧ origin = last
      else (index, origin) ∈ changes.moveMapping) ∧
    ((changes.leaveLast row last).moveMapping.map Prod.fst).Nodup := by
  rw [CollectionChangeBuilder.leaveLast]
  by_cases inserted : last ∈ changes.insertions.toFinset
  · rw [if_pos ((IndexSet.endsWith_iff (tracks.le_of_inserted ends)).mpr inserted)]
    refine ⟨fun slot => ?_, fun slot => ?_, fun index origin => ?_, tracks.keys_collapse⟩
    · grind
    · rw [IndexSet.toFinset_remove, Finset.mem_erase]
    · rw [tracks.mem_collapse ends apart]
      grind
  · have only := (tracks.moved · last · |>.2.1)
    rw [if_neg (mt (IndexSet.endsWith_iff (tracks.le_of_inserted ends)).mp inserted)]
    have shifted : (changes.deletions.addShifted (changes.insertions.unshift last)).1 = last := by
      rw [IndexSet.addShifted_fst, IndexSet.unshift_eq,
        tracks.shift_unshift_of_free inserted (by omega)]
    refine ⟨fun slot => ?_, fun slot => ?_, fun index origin => ?_,
      keys_mapTo tracks.keys_collapse _ _⟩
    · rw [IndexSet.toFinset_addShifted, IndexSet.unshift_eq,
        tracks.shift_unshift_of_free inserted (by omega), Finset.mem_insert]
      grind
    · grind
    · rw [mem_mapTo, tracks.mem_collapse ends apart, shifted]
      grind

/-- **The last row is moved over** one that is erased. -/
theorem MovedOver.moveOver (tracks : RowTracks changes old new changed)
    (ends : last + 1 = new.length) (inside : row ≤ last) :
    MovedOver changes row last (changes.moveOver row last) := by
  rw [CollectionChangeBuilder.moveOver]
  by_cases same : row = last
  · subst same
    rw [if_pos rfl]
    exact MovedOver.removeLast tracks ends
  · rw [if_neg same]
    obtain ⟨deletions, insertions, mapping, keys⟩ := MovedOver.leaveLast tracks ends same
    by_cases inserted : row ∈ changes.insertions.toFinset
    · simp only [if_pos (IndexSet.contains_iff.mpr inserted)]
      refine ⟨fun slot => ?_, fun slot => ?_, mapping, keys, fun slot => mem_moveModified same⟩
      · rw [deletions]
        grind
      · rw [insertions]
        grind
    · simp only [if_neg (mt IndexSet.contains_iff.mp inserted)]
      obtain ⟨free, before⟩ := tracks.free_deletions inserted (by omega)
      have stays : Positions.shift (changes.leaveLast row last).deletions.toFinset
          (Positions.unshift (changes.leaveLast row last).insertions.toFinset row) = row := by
        refine Positions.shift_unshift_of_filter_eq ?_ ?_
        · rw [deletions]
          grind
        · ext other
          have below := Finset.ext_iff.mp (tracks.filter_below before (by omega)) other
          simp only [Finset.mem_filter, deletions, insertions] at below ⊢
          grind
      refine ⟨fun slot => ?_, fun slot => ?_, mapping, keys, fun slot => mem_moveModified same⟩
      · rw [IndexSet.toFinset_addShifted, IndexSet.unshift_eq, stays, Finset.mem_insert, deletions]
        grind
      · rw [IndexSet.toFinset_add, Finset.mem_insert, insertions]
        grind

/-- **Removing a row** by moving the last one over it is told by the changes. -/
theorem moveOver (tracks : RowTracks changes old new changed) (ends : last + 1 = new.length)
    (inside : row ≤ last) :
    RowTracks (changes.moveOver row last) old (moveLastOver new row) changed := by
  obtain ⟨deletions, insertions, mapping, keys, modifications⟩ :=
    MovedOver.moveOver tracks ends inside
  have unlisted : (changes.moveOver row last).moves = [] := by
    rw [moves_moveOver, tracks.unlisted]
  have read : ∀ slot, (moveLastOver new row)[slot]? =
      if slot < last then if slot = row then new[last]? else new[slot]? else Option.none := by
    intro slot
    rw [getElem?_moveLastOver new row slot (by omega), ← ends, Nat.add_sub_cancel]
    simp only [Nat.add_lt_add_iff_right]
  have shuffled := moveLastOver_perm new row (by omega)
  have shorter : (moveLastOver new row).length = last := by
    rw [shuffled.length_eq, List.length_eraseIdx_of_lt (by omega), ← ends, Nat.add_sub_cancel]
  have stays : last ∉ changes.insertions.toFinset → last ∉ changes.deletions.toFinset ∧
      last < old.length := fun free => tracks.free_deletions free (by omega)
  have rowStays : row ∉ changes.insertions.toFinset → row ∉ changes.deletions.toFinset ∧
      row < old.length := fun free => tracks.free_deletions free (by omega)
  refine ⟨⟨fun slot member => ?_, fun slot member => ?_, fun slot => ?_,
    fun slot kept before => ?_, fun origin index member => ?_,
    fun index member item here among => ?_, ⟨tracks.distinct.1, ?_⟩⟩, keys, unlisted,
    fun slot => ?_⟩
  · have := tracks.deleted slot
    grind
  · have := tracks.inserted slot
    rw [shorter]
    grind
  · have := tracks.slots slot
    rw [shorter, deletions, insertions]
    grind
  · have remains : slot ∉ changes.deletions.toFinset := by grind
    obtain ⟨free, after⟩ := tracks.free_insertions remains before
    rw [read, tracks.kept slot remains before]
    grind
  · obtain ⟨apart, moved⟩ := (mapping index origin).mp member
    rw [insertions, deletions, read]
    by_cases here : index = row
    · rw [if_pos here] at moved
      rcases moved with earlier | ⟨free, rfl⟩
      · have := tracks.moved origin last earlier
        grind
      · have := tracks.kept origin (stays free).1 (stays free).2
        grind
    · rw [if_neg here] at moved
      have := tracks.moved origin index moved
      have := tracks.inserted index
      grind
  · obtain ⟨apart, inserted⟩ := (insertions index).mp member
    rw [read] at here
    simp only [mapping]
    by_cases moved : index = row
    · by_cases listed : last ∈ changes.insertions.toFinset
      · obtain ⟨origin, among⟩ := tracks.complete last listed item (by grind) among
        exact ⟨origin, apart, by rw [if_pos moved]; exact Or.inl among⟩
      · exact ⟨last, apart, by rw [if_pos moved]; exact Or.inr ⟨listed, rfl⟩⟩
    · obtain ⟨origin, among⟩ :=
        tracks.complete index (inserted.resolve_left moved) item (by grind) among
      exact ⟨origin, apart, by rwa [if_neg moved]⟩
  · exact shuffled.nodup_iff.mpr (tracks.distinct.2.sublist (List.eraseIdx_sublist ..))
  · rw [modifications, read, tracks.modified, tracks.modified]
    grind

end RowTracks

/-! ## After the log has been read -/

namespace SlotTracks

variable {deletions insertions : IndexSet} {goes : Nat → Nat → Prop} {old new : List α}

theorem congr {goes' : Nat → Nat → Prop} (tracks : SlotTracks deletions insertions goes old new)
    (same : ∀ source target, goes source target ↔ goes' source target) :
    SlotTracks deletions insertions goes' old new := by
  obtain rfl : goes = goes' := funext₂ fun source target => propext (same source target)
  exact tracks

/-- Dropping a move that leads back to its slot. -/
theorem cancel {slot : Nat} (tracks : SlotTracks deletions insertions goes old new)
    (back : goes slot slot) :
    SlotTracks (deletions.remove slot) (insertions.remove slot)
      (fun source target => goes source target ∧ target ≠ slot) old new := by
  obtain ⟨gone, listed, same⟩ := tracks.moved slot slot back
  have before := tracks.deleted slot gone
  have after := tracks.inserted slot listed
  have deletions' : ∀ other, other ∈ (deletions.remove slot).toFinset ↔
      other ≠ slot ∧ other ∈ deletions.toFinset := fun other => by
    rw [IndexSet.toFinset_remove, Finset.mem_erase]
  have insertions' : ∀ other, other ∈ (insertions.remove slot).toFinset ↔
      other ≠ slot ∧ other ∈ insertions.toFinset := fun other => by
    rw [IndexSet.toFinset_remove, Finset.mem_erase]
  refine ⟨fun other member => ?_, fun other member => ?_, fun other => ?_,
    fun other kept inside => ?_, fun source target moved => ?_,
    fun target member item here among => ?_, tracks.distinct⟩
  · exact tracks.deleted other ((deletions' other).mp member).2
  · exact tracks.inserted other ((insertions' other).mp member).2
  · have := tracks.slots other
    grind
  · by_cases other = slot
    · grind
    · exact tracks.kept other (by grind) inside
  · obtain ⟨gone', listed', same'⟩ := tracks.moved source target moved.1
    refine ⟨(deletions' source).mpr ⟨fun equal => moved.2 ?_, gone'⟩,
      (insertions' target).mpr ⟨moved.2, listed'⟩, same'⟩
    subst equal
    exact (List.getElem?_inj (tracks.inserted target listed') tracks.distinct.2).mp
      (same'.symm.trans same)
  · obtain ⟨apart, inserted⟩ := (insertions' target).mp member
    obtain ⟨source, moved⟩ := tracks.complete target inserted item here among
    exact ⟨source, moved, apart⟩

/-- **Parsing the moves** keeps track of every row. -/
theorem parseMoves {mapping : List (Nat × Nat)} (keys : (mapping.map Prod.fst).Nodup)
    (apart : ∀ source target, goes source target → target ∉ mapping.map Prod.fst)
    (tracks : SlotTracks deletions insertions
      (fun source target => (target, source) ∈ mapping ∨ goes source target) old new) :
    let parsed := CollectionChangeBuilder.parseMoves mapping deletions insertions
    SlotTracks parsed.2.1 parsed.2.2
      (fun source target => ⟨source, target⟩ ∈ parsed.1 ∨ goes source target) old new := by
  induction mapping generalizing deletions insertions goes with
  | nil => simpa [CollectionChangeBuilder.parseMoves] using tracks
  | cons entry rest ih =>
      obtain ⟨index, origin⟩ := entry
      obtain ⟨new', distinct⟩ := List.nodup_cons.mp keys
      have other : ∀ source target, goes source target → target ≠ index ∧
          target ∉ rest.map Prod.fst := fun source target moved => by
        simpa [not_or] using apart source target moved
      rw [CollectionChangeBuilder.parseMoves]
      by_cases back : index = origin
      · subst back
        simp only [if_pos]
        refine ih distinct (fun source target moved => (other source target moved).2) ?_
        refine (tracks.cancel (Or.inl List.mem_cons_self)).congr fun source target => ?_
        have later : (target, source) ∈ rest → target ≠ index := fun member same =>
          new' (List.mem_map.mpr ⟨_, member, same⟩)
        have := other source target
        grind
      · simp only [if_neg back]
        have listed : SlotTracks deletions insertions (fun source target =>
            (target, source) ∈ rest ∨ (source = origin ∧ target = index ∨ goes source target))
            old new := tracks.congr fun source target => by grind
        refine (ih distinct ?_ listed).congr fun source target => ?_
        · rintro source target (⟨rfl, rfl⟩ | moved)
          · exact new'
          · exact (other source target moved).2
        · rw [List.mem_cons, Move.mk.injEq]
          grind

end SlotTracks

/-- What changes say of a table when its log has been read. -/
structure TableTracks (changes : CollectionChangeBuilder) (old new : List α) (changed : α → Prop) :
    Prop extends SlotTracks changes.deletions changes.insertions
      (fun source target => ⟨source, target⟩ ∈ changes.moves) old new where
  sorted : changes.moves.Pairwise fun first second => first.source ≤ second.source
  modified : ∀ slot, slot ∈ changes.modifications.toFinset ↔
    ∃ item, new[slot]? = some item ∧ changed item

/-- **Reading a log to its end** tells of every row where it went. -/
theorem RowTracks.parseComplete {changes : CollectionChangeBuilder} {old new : List α}
    {changed : α → Prop} (tracks : RowTracks changes old new changed) :
    TableTracks changes.parseComplete old new changed := by
  have listed : SlotTracks changes.deletions changes.insertions (fun source target =>
      (target, source) ∈ changes.moveMapping ∨ False) old new := tracks.toSlotTracks.congr (by simp)
  have parsed := SlotTracks.parseMoves tracks.keys (fun _ _ => False.elim) listed
  refine ⟨?_, ?_, tracks.modified⟩
  · refine parsed.congr fun source target => ?_
    rw [CollectionChangeBuilder.parseComplete, or_false, List.mem_insertionSort, tracks.unlisted,
      List.nil_append]
  · exact List.pairwise_insertionSort _ _

namespace CollectionChangeBuilder

/-- The first move that begins at an index or after it. -/
def lowerBound (moves : List Move) (index : Nat) : Option Move :=
  moves.find? fun move => ¬ move.source < index

/-- In moves sorted by where they begin, the lower bound of a beginning is one that begins
there. -/
theorem lowerBound_source {moves : List Move}
    (sorted : moves.Pairwise fun first second => first.source ≤ second.source) {move : Move}
    (member : move ∈ moves) :
    ∃ first ∈ moves, lowerBound moves move.source = some first ∧ first.source = move.source := by
  induction moves with
  | nil => cases member
  | cons first rest ih =>
      obtain ⟨least, sorted⟩ := List.pairwise_cons.mp sorted
      by_cases before : first.source < move.source
      · have later : move ∈ rest := (List.mem_cons.mp member).resolve_left fun same => by
          subst same
          exact Nat.lt_irrefl _ before
        obtain ⟨other, among, found, same⟩ := ih sorted later
        refine ⟨other, List.mem_cons_of_mem _ among, ?_, same⟩
        rw [← found, lowerBound, List.find?_cons_of_neg (by simpa using before), lowerBound]
      · refine ⟨first, List.mem_cons_self, ?_, ?_⟩
        · rw [lowerBound, List.find?_cons_of_pos (by simpa using before)]
        · rcases List.mem_cons.mp member with rfl | later
          · rfl
          · have := least move later
            omega

/-- Where a row is after changes, if it is still there. -/
def rowAfter (changes : CollectionChangeBuilder) (row : Nat) : Option Nat :=
  if changes.deletions.contains row then
    match lowerBound changes.moves row with
    | some move => if move.source = row then some move.target else .none
    | .none => .none
  else some (changes.insertions.shift (changes.deletions.unshift row))

end CollectionChangeBuilder

/-- **Every row is found again**: where the changes say a row is after them, it is, and a
row that they do not lead anywhere is not in the table any more. -/
theorem TableTracks.rowAfter_eq_some_iff {changes : CollectionChangeBuilder} {old new : List α}
    {changed : α → Prop} (tracks : TableTracks changes old new changed) {row place : Nat} {item : α}
    (here : old[row]? = some item) :
    changes.rowAfter row = some place ↔ new[place]? = some item := by
  obtain ⟨inside, found⟩ := List.getElem?_eq_some_iff.mp here
  have unique : ∀ slot, old[slot]? = some item → slot = row := fun slot there =>
    ((List.getElem?_inj inside tracks.distinct.1).mp (here.trans there.symm)).symm
  by_cases gone : row ∈ changes.deletions.toFinset
  · rw [CollectionChangeBuilder.rowAfter, if_pos (IndexSet.contains_iff.mpr gone)]
    have reaches : ∀ move ∈ changes.moves, move.source = row → new[move.target]? = some item :=
      fun move member same => by
        rw [← (tracks.moved move.source move.target member).2.2, same, here]
    constructor
    · intro found
      split at found
      · rename_i move bound
        split at found
        · rename_i same
          rw [← Option.some.inj found]
          exact reaches move (List.mem_of_find?_eq_some bound) same
        · cases found
      · cases found
    · intro there
      obtain ⟨after, _⟩ := List.getElem?_eq_some_iff.mp there
      have inserted : place ∈ changes.insertions.toFinset := by
        by_contra free
        obtain ⟨remains, before⟩ := tracks.free_deletions free after
        rw [unique place ((tracks.kept place remains before).trans there)] at remains
        exact remains gone
      obtain ⟨source, listed⟩ :=
        tracks.complete place inserted item there (List.mem_of_getElem? here)
      have begins : source = row :=
        unique source ((tracks.moved source place listed).2.2.trans there)
      subst begins
      obtain ⟨first, member, bound, same⟩ := lowerBound_source tracks.sorted listed
      have arrives := reaches first member same
      simp only [bound, same, if_true]
      rw [(List.getElem?_inj after tracks.distinct.2).mp (there.trans arrives.symm)]
  · rw [CollectionChangeBuilder.rowAfter, if_neg (mt IndexSet.contains_iff.mp gone),
      IndexSet.shift_eq,
      IndexSet.unshift_eq, tracks.shift_unshift_of_kept gone inside]
    have there := (tracks.kept row gone inside).symm.trans here
    constructor
    · intro same
      rwa [← Option.some.inj same]
    · intro there'
      obtain ⟨after, _⟩ := List.getElem?_eq_some_iff.mp there
      rw [(List.getElem?_inj after tracks.distinct.2).mp (there.trans there'.symm)]

end EventTalks.Realm

import EventTalks.Foundation.Positions
import EventTalks.Realm.Ranges
import Mathlib.Algebra.BigOperators.Group.List.Basic

/-! # Sets of indices

An index set holds the ranges of its indices; that they stay apart is a field, so every
operation keeps it. On the indices, the operations are those of `Foundation.Positions`, and
the ranges are determined by the indices (`EventTalks.Realm.IndexSet.ext_toFinset`). The
ranges are taken here without the chunks that they are stored in; `Realm.ChunkedSet` has what
the chunks change.
-/

namespace EventTalks.Realm

open Foundation

/-- The indices of some ranges, in their order. -/
def indexes (ranges : List Range) : List Nat :=
  ranges.flatMap fun range => List.range' range.first range.size

section Indexes

variable {bound index : Nat} {ranges before after : List Range}

/-- The indices of ranges are those that they cover. -/
theorem mem_indexes : index ∈ indexes ranges ↔ Covered ranges index := by
  rw [indexes, List.mem_flatMap, Covered]
  refine exists_congr fun range => and_congr_right fun _ => ?_
  rw [List.mem_range'_1, Range.size, Range.Covers]
  omega

/-- Ranges that are apart list their indices in order, each once. -/
theorem Separated.pairwise_indexes (separated : Separated bound ranges) :
    (indexes ranges).Pairwise (· < ·) := by
  induction ranges generalizing bound with
  | nil => exact List.Pairwise.nil
  | cons range rest ih =>
      obtain ⟨below, occupied, later⟩ := separated
      rw [indexes, List.flatMap_cons, List.pairwise_append]
      refine ⟨List.pairwise_lt_range', ih later, ?_⟩
      intro first here second there
      have reached := later.le_of_covered (mem_indexes.mp there)
      rw [List.mem_range'_1, Range.size] at here
      omega

/-- There are as many indices as the ranges are long. -/
theorem length_indexes (ranges : List Range) :
    (indexes ranges).length = (ranges.map Range.size).sum := by
  simp [indexes, List.length_flatMap]

/-- Ranges that begin at a bound or later are determined by their indices. -/
theorem Separated.eq_of_covered {first second : List Range}
    (separated : Separated bound first) (other : Separated bound second)
    (same : ∀ index, Covered first index ↔ Covered second index) : first = second := by
  induction first generalizing bound second with
  | nil =>
      cases second with
      | nil => rfl
      | cons range rest =>
          have covered : Covered (range :: rest) range.first :=
            covered_cons.mpr (Or.inl ⟨Nat.le_refl _, other.2.1⟩)
          exact absurd ((same _).mpr covered) covered_nil
  | cons range rest ih =>
      cases second with
      | nil =>
          have covered : Covered (range :: rest) range.first :=
            covered_cons.mpr (Or.inl ⟨Nat.le_refl _, separated.2.1⟩)
          exact absurd ((same _).mp covered) covered_nil
      | cons range' rest' =>
          obtain ⟨below, occupied, later⟩ := separated
          obtain ⟨below', occupied', later'⟩ := other
          have beyond : ∀ index, Covered rest index → range.second < index := fun _ covered =>
            later.le_of_covered covered
          have beyond' : ∀ index, Covered rest' index → range'.second < index := fun _ covered =>
            later'.le_of_covered covered
          simp only [covered_cons] at same
          have first : range.first = range'.first := by
            have here := same range.first
            have there := same range'.first
            grind
          have second : range.second = range'.second := by
            have here := same range.second
            have there := same range'.second
            have last := same (range.second - 1)
            have last' := same (range'.second - 1)
            grind
          obtain rfl : range = range' := Range.ext first second
          rw [ih later later']
          intro index
          have here := same index
          grind

end Indexes

/-- A set of indices, as ranges that are apart. -/
@[ext] structure IndexSet where
  ranges : List Range
  separated : Separated 0 ranges

namespace IndexSet

/-- The indices of a set, in order. -/
def asIndexes (set : IndexSet) : List Nat := indexes set.ranges

/-- The indices of a set. -/
def toFinset (set : IndexSet) : Finset Nat := set.asIndexes.toFinset

variable {set other : IndexSet} {index : Nat}

/-- A set has the indices that its ranges cover. -/
theorem mem_toFinset : index ∈ set.toFinset ↔ Covered set.ranges index := by
  rw [toFinset, List.mem_toFinset]
  exact mem_indexes

/-- The indices of a set are in order. -/
theorem pairwise_asIndexes (set : IndexSet) : set.asIndexes.Pairwise (· < ·) :=
  set.separated.pairwise_indexes

/-- The indices of a set are listed once. -/
theorem nodup_asIndexes (set : IndexSet) : set.asIndexes.Nodup :=
  set.pairwise_asIndexes.imp Nat.ne_of_lt

/-- **The ranges of a set are determined by its indices.** -/
theorem ext_toFinset {set other : IndexSet} (same : set.toFinset = other.toFinset) :
    set = other := by
  apply IndexSet.ext
  apply set.separated.eq_of_covered other.separated
  intro index
  rw [← mem_toFinset, ← mem_toFinset, same]

/-- The cursor at the first range. -/
def begin (set : IndexSet) : Cursor := ⟨[], set.ranges⟩

/-- The cursor at the range that contains an index, or at the first one after it. -/
def find (set : IndexSet) (index : Nat) : Cursor := set.begin.find index

/-- The cursor that is found stands where the index is, or would be put. -/
theorem at_find (set : IndexSet) (index : Nat) : (set.find index).At index :=
  Cursor.at_find set.separated index

/-- To find an index leaves the ranges as they are. -/
@[simp] theorem ranges_find (set : IndexSet) (index : Nat) :
    (set.find index).ranges = set.ranges :=
  Cursor.ranges_find _ _

/-- The set of the ranges around a cursor. -/
def ofCursor (cursor : Cursor) (sound : cursor.Sound) : IndexSet where
  ranges := cursor.ranges
  separated := sound.separated

/-- The set around a cursor has the indices that its ranges cover. -/
theorem mem_ofCursor {cursor : Cursor} {sound : cursor.Sound} :
    index ∈ (ofCursor cursor sound).toFinset ↔ Covered cursor.ranges index := mem_toFinset

/-! ## Looking up and counting -/

def contains (set : IndexSet) (index : Nat) : Bool := (set.find index).contains index

/-- A set contains its indices. -/
theorem contains_iff : set.contains index = true ↔ index ∈ set.toFinset := by
  rw [contains, ← (set.at_find index).covered_iff_contains, ranges_find, mem_toFinset]

/-- The indices below an end, in ranges after one that was counted. -/
def countRest (stop : Nat) : List Range → Nat
  | [] => 0
  | range :: rest =>
      if range.second ≤ stop then range.size + countRest stop rest
      else if range.first < stop then stop - range.first
      else 0

/-- The number of indices from a start on and below an end. -/
def count (set : IndexSet) (start stop : Nat) : Nat :=
  match (set.find start).after with
  | [] => 0
  | range :: rest =>
      if stop ≤ range.first then 0
      else if stop ≤ range.second then min range.second stop - max range.first start
      else range.second - max range.first start + countRest stop rest

/-- The indices of a range from a start on and below an end. -/
theorem countP_range' (first size start stop : Nat) :
    (List.range' first size).countP (fun index => start ≤ index ∧ index < stop) =
      min (first + size) stop - max first start := by
  induction size with
  | zero =>
      rw [List.range'_zero, List.countP_nil]
      omega
  | succ size ih =>
      rw [List.range'_concat, List.countP_append, ih, List.countP_singleton, Nat.one_mul]
      by_cases inside : start ≤ first + size ∧ first + size < stop
      · rw [if_pos (decide_eq_true inside)]
        omega
      · rw [if_neg (by simpa using inside)]
        omega

/-- Ranges that cover nothing between a start and an end have no index there. -/
theorem countP_eq_zero_of_not_covered {ranges : List Range} {start stop : Nat}
    (outside : ∀ index, start ≤ index → index < stop → ¬ Covered ranges index) :
    (indexes ranges).countP (fun index => start ≤ index ∧ index < stop) = 0 := by
  rw [List.countP_eq_zero]
  intro index member
  have covered := mem_indexes.mp member
  simp only [decide_eq_true_eq]
  exact fun inside => outside index inside.1 inside.2 covered

/-- Counting on over ranges from the start on counts their indices below the end. -/
theorem countRest_eq {bound start stop : Nat} {ranges : List Range} (begun : start ≤ bound)
    (separated : Separated bound ranges) :
    countRest stop ranges =
      (indexes ranges).countP (fun index => start ≤ index ∧ index < stop) := by
  induction ranges generalizing bound with
  | nil => rfl
  | cons range rest ih =>
      obtain ⟨below, occupied, later⟩ := separated
      rw [countRest, indexes, List.flatMap_cons, List.countP_append, countP_range', ← indexes,
        Range.size]
      by_cases whole : range.second ≤ stop
      · rw [if_pos whole, ih (by omega) later]
        omega
      · rw [if_neg whole, countP_eq_zero_of_not_covered fun index _ before covered => by
          have := later.le_of_covered covered
          omega]
        by_cases partly : range.first < stop
        · rw [if_pos partly]
          omega
        · rw [if_neg partly]
          omega

/-- Counting goes over the list of the indices. -/
theorem count_eq_countP (set : IndexSet) (start stop : Nat) :
    set.count start stop =
      set.asIndexes.countP (fun index => start ≤ index ∧ index < stop) := by
  obtain ⟨⟨bound, below, ends, separated⟩, above⟩ := set.at_find start
  have split : set.asIndexes =
      indexes (set.find start).before.reverse ++ indexes (set.find start).after := by
    rw [asIndexes, ← set.ranges_find start, Cursor.ranges, List.reverseAux_eq, indexes, indexes,
      indexes, List.flatMap_append]
  rw [split, List.countP_append, countP_eq_zero_of_not_covered, Nat.zero_add, count]
  · cases found : (set.find start).after with
    | nil => rfl
    | cons range rest =>
        rw [found] at separated above
        obtain ⟨apart, occupied, later⟩ := separated
        have inside := above range rfl
        have none : stop ≤ range.second →
            (indexes rest).countP (fun index => start ≤ index ∧ index < stop) = 0 := fun ended =>
          countP_eq_zero_of_not_covered fun index _ before covered => by
            have := later.le_of_covered covered
            omega
        rw [indexes, List.flatMap_cons, List.countP_append, countP_range', ← indexes, Range.size]
        by_cases empty : stop ≤ range.first
        · simp only [if_pos empty, none (by omega)]
          omega
        · by_cases ended : stop ≤ range.second
          · simp only [if_neg empty, if_pos ended, none ended]
            omega
          · simp only [if_neg empty, if_neg ended]
            have below : start ≤ range.second + 1 := by omega
            rw [countRest_eq below later]
            omega
  · intro index begun _ covered
    have covered : Covered (set.find start).before index := by
      simpa [Covered] using covered
    have := ends.lt_of_covered covered
    omega

/-- A part of a set is as large as that of the list of its indices. -/
theorem card_filter_toFinset (set : IndexSet) (keep : Nat → Prop) [DecidablePred keep] :
    (set.toFinset.filter keep).card = set.asIndexes.countP (keep ·) := by
  have listed : set.toFinset.filter keep = (set.asIndexes.filter (keep ·)).toFinset := by
    ext index
    simp [toFinset]
  rw [listed, List.toFinset_card_of_nodup (set.nodup_asIndexes.filter _),
    List.countP_eq_length_filter]

/-- **Counting** counts the indices of the set. -/
theorem count_eq_card (set : IndexSet) (start stop : Nat) :
    set.count start stop =
      (set.toFinset.filter fun index => start ≤ index ∧ index < stop).card := by
  rw [card_filter_toFinset, count_eq_countP]

def shift (set : IndexSet) (index : Nat) : Nat :=
  index + (Cursor.overtake index 0 [] set.ranges).1

def unshift (set : IndexSet) (index : Nat) : Nat := index - set.count 0 index

/-- To unshift an index is to leave out the indices below it. -/
@[simp] theorem unshift_eq (set : IndexSet) (index : Nat) :
    set.unshift index = Positions.unshift set.toFinset index := by
  rw [unshift, count_eq_card, Positions.unshift_eq_sub]
  simp only [Nat.zero_le, true_and]

/-- The ranges before a cursor hold the indices below its place. -/
theorem unshift_add_sum {cursor : Cursor} {place : Nat} (around : cursor.ranges = set.ranges)
    (standing : cursor.At place) (outside : cursor.contains place = false) :
    Positions.unshift set.toFinset place + (cursor.before.map Range.size).sum = place := by
  have total := Positions.unshift_add_card set.toFinset place
  obtain ⟨⟨bound, below, ends, separated⟩, above⟩ := standing
  have split : set.asIndexes = indexes cursor.before.reverse ++ indexes cursor.after := by
    rw [asIndexes, ← around, Cursor.ranges, List.reverseAux_eq, indexes, indexes, indexes,
      List.flatMap_append]
  have earlier : (indexes cursor.before.reverse).countP (· < place) =
      (cursor.before.map Range.size).sum := by
    rw [List.countP_eq_length.mpr, length_indexes, List.map_reverse, List.sum_reverse]
    intro index member
    have covered : Covered cursor.before index := by
      simpa [Covered] using mem_indexes.mp member
    have := ends.lt_of_covered covered
    simp only [decide_eq_true_eq]
    omega
  have later : (indexes cursor.after).countP (· < place) = 0 := by
    rw [List.countP_eq_zero]
    intro index member
    have covered := mem_indexes.mp member
    simp only [decide_eq_true_eq]
    cases found : cursor.after with
    | nil => simp [found] at covered
    | cons range rest =>
        have same : cursor = ⟨cursor.before, range :: rest⟩ := by rw [← found]
        have beyond := Cursor.lt_of_not_contains outside ⟨⟨bound, below, ends, separated⟩, above⟩
          same
        rw [found] at separated covered
        have start : Separated range.first (range :: rest) := ⟨Nat.le_refl _, separated.2⟩
        have := start.le_of_covered covered
        omega
  rw [card_filter_toFinset, split, List.countP_append, earlier, later] at total
  exact total

/-- A shifted index is free, and has as many indices below it as it is shifted by. -/
theorem overtake_spec (set : IndexSet) (index : Nat) :
    (Cursor.overtake index 0 [] set.ranges).2.ranges = set.ranges ∧
      (Cursor.overtake index 0 [] set.ranges).2.At (set.shift index) ∧
      set.shift index = Positions.shift set.toFinset index := by
  obtain ⟨around, standing, outside, moved⟩ :=
    Cursor.overtake_spec (endsBelow_nil 0) (Nat.zero_le (index + 0 + 1)) set.separated
  have around : (Cursor.overtake index 0 [] set.ranges).2.ranges = set.ranges := around
  refine ⟨around, standing, ?_⟩
  have total := unshift_add_sum around standing outside
  rw [List.map_nil, List.sum_nil] at moved
  symm
  rw [Positions.shift_eq_iff, mem_toFinset, ← around]
  rw [← Bool.not_eq_true, ← standing.covered_iff_contains] at outside
  refine ⟨outside, ?_⟩
  rw [shift]
  omega

/-- To shift an index is to pass over the indices of the set. -/
@[simp] theorem shift_eq (set : IndexSet) (index : Nat) :
    set.shift index = Positions.shift set.toFinset index := (set.overtake_spec index).2.2

/-! ## Adding and removing -/

def add (set : IndexSet) (index : Nat) : IndexSet :=
  ofCursor ((set.find index).doAdd index) (set.at_find index).sound_doAdd

/-- Adding an index adds it. -/
@[simp] theorem toFinset_add (set : IndexSet) (index : Nat) :
    (set.add index).toFinset = insert index set.toFinset := by
  ext other
  rw [add, mem_ofCursor, (set.at_find index).doAdd.2, ranges_find, Finset.mem_insert, mem_toFinset]

/-- An index shifted by the set is added; the shifted index is returned. -/
def addShifted (set : IndexSet) (index : Nat) : Nat × IndexSet :=
  (set.shift index, ofCursor ((Cursor.overtake index 0 [] set.ranges).2.doAdd (set.shift index))
    (set.overtake_spec index).2.1.sound_doAdd)

/-- Adding a shifted index tells what it was shifted to. -/
@[simp] theorem addShifted_fst (set : IndexSet) (index : Nat) :
    (set.addShifted index).1 = Positions.shift set.toFinset index := set.shift_eq index

/-- Adding a shifted index adds what it is shifted to. -/
@[simp] theorem toFinset_addShifted (set : IndexSet) (index : Nat) :
    (set.addShifted index).2.toFinset =
      insert (Positions.shift set.toFinset index) set.toFinset := by
  obtain ⟨around, standing, same⟩ := set.overtake_spec index
  ext other
  rw [addShifted, mem_ofCursor, standing.doAdd.2, around, Finset.mem_insert, mem_toFinset, same]

/-- Removing an index at its place removes it, and no other. -/
theorem remove_spec (set : IndexSet) (index : Nat) :
    ((set.find index).doRemove index (index + 1)).Sound ∧
      ∀ other, Covered ((set.find index).doRemove index (index + 1)).ranges other ↔
        Covered set.ranges other ∧ other ≠ index := by
  obtain ⟨⟨bound, below, ends, separated⟩, above⟩ := set.at_find index
  obtain ⟨placed, covers⟩ := Cursor.remove_spec ends below separated (Nat.lt_succ_self index)
  refine ⟨⟨_, placed.choose_spec.2⟩, fun other => ?_⟩
  rw [Cursor.doRemove, covers, ← Cursor.covered_ranges, ranges_find]
  refine and_congr_right fun _ => ?_
  omega

def remove (set : IndexSet) (index : Nat) : IndexSet :=
  ofCursor ((set.find index).doRemove index (index + 1)) (set.remove_spec index).1

/-- Removing an index removes it. -/
@[simp] theorem toFinset_remove (set : IndexSet) (index : Nat) :
    (set.remove index).toFinset = set.toFinset.erase index := by
  ext other
  rw [remove, mem_ofCursor, (set.remove_spec index).2, Finset.mem_erase, mem_toFinset, and_comm]

/-- The indices of a set added one after the other, each looked for from the last one on. -/
def addAll (cursor : Cursor) (indices : List Nat) : Cursor :=
  indices.foldl (fun cursor index => (cursor.find index).doAdd index) cursor

/-- Indices added in order, from one place to the next, are those added; the induction is on what
is left to add. -/
theorem addAll_spec {cursor : Cursor} {bound : Nat} {indices : List Nat}
    (ends : EndsBelow bound cursor.before) (separated : Separated bound cursor.after)
    (ordered : indices.Pairwise (· < ·)) (below : ∀ index ∈ indices, bound ≤ index + 1) :
    (addAll cursor indices).Sound ∧ ∀ other, Covered (addAll cursor indices).ranges other ↔
      other ∈ indices ∨ Covered cursor.ranges other := by
  induction indices generalizing cursor bound with
  | nil => exact ⟨⟨bound, ends, separated⟩, fun other => by simp [addAll]⟩
  | cons index rest ih =>
      obtain ⟨least, sorted⟩ := List.pairwise_cons.mp ordered
      have place : (cursor.find index).At index :=
        Cursor.at_seek (below index List.mem_cons_self) ends separated
      obtain ⟨⟨reached, near, ending, later⟩, covers⟩ := place.doAdd
      obtain ⟨sound, added⟩ := ih ending later sorted fun other member => by
        have := least other member
        omega
      refine ⟨sound, fun other => ?_⟩
      change Covered (addAll ((cursor.find index).doAdd index) rest).ranges other ↔ _
      rw [added, covers, Cursor.ranges_find, List.mem_cons, or_left_comm, or_assoc]

/-- The indices of another set are added from the first range on. -/
theorem addAll_begin (set other : IndexSet) :
    (addAll set.begin other.asIndexes).Sound ∧
      ∀ index, Covered (addAll set.begin other.asIndexes).ranges index ↔
        index ∈ other.asIndexes ∨ Covered set.ranges index :=
  addAll_spec (endsBelow_nil 0) set.separated other.pairwise_asIndexes fun _ _ => Nat.zero_le _

/-- The indices of another set are added. -/
def addSet (set other : IndexSet) : IndexSet :=
  ofCursor (addAll set.begin other.asIndexes) (set.addAll_begin other).1

/-- Adding a set adds its indices. -/
@[simp] theorem toFinset_addSet (set other : IndexSet) :
    (set.addSet other).toFinset = set.toFinset ∪ other.toFinset := by
  ext index
  rw [addSet, mem_ofCursor, (set.addAll_begin other).2, Finset.mem_union, mem_toFinset, or_comm,
    toFinset, List.mem_toFinset]

/-- The ranges are removed one after the other, each looked for from the last one on. -/
def removeAll (cursor : Cursor) : List Range → Cursor
  | [] => cursor
  | range :: rest =>
      let cursor := cursor.doRemove range.first range.second
      if cursor.after.isEmpty then cursor else removeAll cursor rest

/-- Ranges removed in order, from one place to the next, are those removed; the induction is on
what is left to remove, and it may end early. -/
theorem removeAll_spec {cursor : Cursor} {bound : Nat} {ranges : List Range}
    (ends : EndsBelow bound cursor.before) (separated : Separated bound cursor.after)
    {start : Nat} (ordered : Separated start ranges) (below : bound ≤ start + 1) :
    (removeAll cursor ranges).Sound ∧ ∀ other, Covered (removeAll cursor ranges).ranges other ↔
      Covered cursor.ranges other ∧ ¬ Covered ranges other := by
  induction ranges generalizing cursor bound start with
  | nil => exact ⟨⟨bound, ends, separated⟩, fun other => by simp [removeAll]⟩
  | cons range rest ih =>
      obtain ⟨begun, occupied, later⟩ := ordered
      obtain ⟨⟨reached, near, ending, remaining⟩, covers⟩ :=
        Cursor.remove_spec ends (below.trans (Nat.succ_le_succ begun)) separated occupied
      rw [removeAll]
      have beyond : ∀ other, Covered rest other → range.second < other := fun _ covered =>
        later.le_of_covered covered
      rw [← Cursor.doRemove] at ending remaining covers
      by_cases ended : (cursor.doRemove range.first range.second).after.isEmpty = true
      · simp only [if_pos ended]
        refine ⟨⟨reached, ending, remaining⟩, fun other => ?_⟩
        have outside : Covered (cursor.doRemove range.first range.second).ranges other →
            other < range.second := by
          rw [Cursor.covered_ranges, List.isEmpty_iff.mp ended]
          intro covered
          have := ending.lt_of_covered (covered.resolve_right covered_nil)
          omega
        have removed := covers other
        rw [covered_cons, @Cursor.covered_ranges other cursor]
        grind
      · simp only [if_neg ended]
        obtain ⟨sound, removed⟩ := ih ending remaining later (by omega)
        refine ⟨sound, fun other => ?_⟩
        rw [removed, covers, ← Cursor.covered_ranges, covered_cons, not_or, and_assoc]

/-- The ranges of another set are removed from the first range on. -/
theorem removeAll_begin (set other : IndexSet) :
    (removeAll set.begin other.ranges).Sound ∧
      ∀ index, Covered (removeAll set.begin other.ranges).ranges index ↔
        Covered set.ranges index ∧ ¬ Covered other.ranges index :=
  removeAll_spec (endsBelow_nil 0) set.separated other.separated (Nat.zero_le _)

/-- The indices of another set are removed. -/
def removeSet (set other : IndexSet) : IndexSet :=
  ofCursor (removeAll set.begin other.ranges) (set.removeAll_begin other).1

/-- Removing a set removes its indices. -/
@[simp] theorem toFinset_removeSet (set other : IndexSet) :
    (set.removeSet other).toFinset = set.toFinset \ other.toFinset := by
  ext index
  rw [removeSet, mem_ofCursor, (set.removeAll_begin other).2, Finset.mem_sdiff, mem_toFinset,
    mem_toFinset]

/-! ## Single indices that shift the others -/

/-- Indices are inserted: those from an index on move back by their number. -/
def insertAt (set : IndexSet) (index count : Nat) : IndexSet :=
  ofCursor ((set.find index).insertAt index count) ((set.at_find index).insertAt count).1

/-- Inserting indices is inserting an interval of positions. -/
@[simp] theorem toFinset_insertAt (set : IndexSet) (index count : Nat) :
    (set.insertAt index count).toFinset =
      Positions.insertAt set.toFinset (Finset.Ico index (index + count)) := by
  ext other
  rw [insertAt, mem_ofCursor, ((set.at_find index).insertAt count).2, ranges_find,
    Positions.mem_insertAt, Positions.unshift_Ico, Finset.mem_Ico]
  simp only [mem_toFinset]
  grind

/-- The indices from an index on move back by a number. -/
def shiftForInsertAt (set : IndexSet) (index count : Nat) (positive : 0 < count) : IndexSet :=
  ofCursor ((set.find index).shiftForInsertAt index count)
    ((set.at_find index).shiftForInsertAt positive).1

/-- Shifting for an insertion is shifting for an interval of positions. -/
@[simp] theorem toFinset_shiftForInsertAt (set : IndexSet) (index count : Nat)
    (positive : 0 < count) :
    (set.shiftForInsertAt index count positive).toFinset =
      Positions.shiftForInsertAt set.toFinset (Finset.Ico index (index + count)) := by
  ext other
  rw [shiftForInsertAt, mem_ofCursor, ((set.at_find index).shiftForInsertAt positive).2,
    ranges_find, Positions.mem_shiftForInsertAt, Positions.unshift_Ico, Finset.mem_Ico]
  simp only [mem_toFinset]
  grind

/-- An index is removed, and those after it move forward. -/
def eraseAt (set : IndexSet) (index : Nat) : IndexSet :=
  ofCursor ((set.find index).doErase index) (set.at_find index).doErase.1

/-- Erasing an index is erasing a position. -/
@[simp] theorem toFinset_eraseAt (set : IndexSet) (index : Nat) :
    (set.eraseAt index).toFinset = Positions.eraseAt set.toFinset {index} := by
  ext other
  rw [eraseAt, mem_ofCursor, (set.at_find index).doErase.2, ranges_find, Positions.mem_eraseAt,
    Positions.shift_singleton]
  split <;> rw [mem_toFinset]

/-- An index is removed; if the set did not contain it, the index moved forward by those
before it is returned. -/
def eraseOrUnshift (set : IndexSet) (index : Nat) : Option Nat × IndexSet :=
  let cursor := set.find index
  let shifted := cursor.before.foldr (fun range shifted => shifted - range.size) index
  match cursor.after with
  | [] => (some shifted, set)
  | range :: _ => (if range.first ≤ index then none else some shifted, set.eraseAt index)

/-- Taking the ranges off one by one takes off their sizes. -/
theorem foldr_sub_size (ranges : List Range) (index : Nat) :
    ranges.foldr (fun range shifted => shifted - range.size) index =
      index - (ranges.map Range.size).sum := by
  induction ranges with
  | nil => rfl
  | cons range rest ih =>
      rw [List.foldr_cons, ih, List.map_cons, List.sum_cons]
      omega

/-- **Erasing or unshifting** does both, and tells which one it did. -/
theorem eraseOrUnshift_eq (set : IndexSet) (index : Nat) :
    set.eraseOrUnshift index =
      (if set.contains index then none else some (set.unshift index), set.eraseAt index) := by
  have around := set.ranges_find index
  have standing := set.at_find index
  have passed : (set.find index).contains index = false →
      index - ((set.find index).before.map Range.size).sum = set.unshift index := by
    intro outside
    have total := unshift_add_sum around standing outside
    rw [unshift_eq]
    omega
  rw [eraseOrUnshift, foldr_sub_size, contains]
  cases found : (set.find index).after with
  | nil =>
      have outside : (set.find index).contains index = false := by
        rw [Cursor.contains, found]
        rfl
      have same : set.eraseAt index = set := by
        apply IndexSet.ext
        change ((set.find index).doErase index).ranges = set.ranges
        rw [← around]
        cases split : set.find index with
        | mk before after =>
            rw [split] at found
            obtain rfl : after = [] := found
            rfl
      simp only [outside, Bool.false_eq_true, ↓reduceIte, passed outside, same]
  | cons range rest =>
      have above := standing.above range (by rw [found]; rfl)
      have here : (set.find index).contains index = decide (range.first ≤ index) := by
        rw [Cursor.contains, found]
        simp [above]
      by_cases inside : range.first ≤ index
      · simp only [here, inside, decide_true, ↓reduceIte]
      · simp only [here, inside, decide_false, Bool.false_eq_true, ↓reduceIte]
        rw [passed (by rw [here]; exact decide_eq_false inside)]

end IndexSet

end EventTalks.Realm

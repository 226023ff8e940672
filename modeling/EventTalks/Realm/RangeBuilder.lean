import EventTalks.Realm.IndexSet

/-! # Operations on whole index sets

An index set that is inserted into another one, erased from it or used to shift it is gone
through index by index beside the other, and the result is built from the indices in the
order in which they come. The loops are modelled by the indices that they push.
-/

namespace EventTalks.Realm

open Foundation

/-- A range put at the end of ranges, the last one first. -/
def pushBack (built : List Range) (range : Range) : List Range :=
  match built with
  | [] => [range]
  | last :: initial =>
      if range.first = last.second then ⟨last.first, range.second⟩ :: initial
      else range :: last :: initial

/-- The ranges of indices that come in order. -/
def build (indices : List Nat) : List Range :=
  (indices.foldl (fun built index => pushBack built ⟨index, index + 1⟩) []).reverse

section Build

variable {bound index : Nat} {built : List Range} {indices : List Nat}

/-- A pushed index keeps the ranges apart. -/
theorem endsBelow_pushBack (ends : EndsBelow bound built) (below : bound ≤ index + 1) :
    EndsBelow (index + 2) (pushBack built ⟨index, index + 1⟩) := by
  cases built with
  | nil => exact ⟨Nat.lt_succ_self _, Nat.lt_succ_self _, trivial⟩
  | cons last initial =>
      obtain ⟨occupied, ending, earlier⟩ := ends
      rw [pushBack]
      by_cases touching : index = last.second
      · have longer : last.first < index + 1 := by omega
        rw [if_pos touching]
        exact ⟨longer, Nat.lt_succ_self _, earlier⟩
      · have apart : last.second < index := by omega
        rw [if_neg touching]
        exact ⟨Nat.lt_succ_self _, Nat.lt_succ_self _, occupied, apart, earlier⟩

/-- A pushed index is covered, and no other one is new. -/
theorem covered_pushBack {other : Nat} (ends : EndsBelow bound built) :
    Covered (pushBack built ⟨index, index + 1⟩) other ↔ other = index ∨ Covered built other := by
  cases built with
  | nil =>
      simp only [pushBack, covered_cons, covered_nil, or_false]
      omega
  | cons last initial =>
      have occupied := ends.1
      rw [pushBack]
      by_cases touching : index = last.second
      · rw [if_pos touching]
        simp only [covered_cons, ← or_assoc]
        refine or_congr_left ?_
        omega
      · rw [if_neg touching, covered_cons]
        refine or_congr_left ?_
        dsimp only
        omega

/-- Indices pushed in order are covered by ranges that are apart; the induction is on the indices
that are left. -/
theorem build_from (ends : EndsBelow bound built) (ordered : indices.Pairwise (· < ·))
    (below : ∀ index ∈ indices, bound ≤ index + 1) :
    (∃ bound, EndsBelow bound
      (indices.foldl (fun built index => pushBack built ⟨index, index + 1⟩) built)) ∧
    ∀ other,
      Covered (indices.foldl (fun built index => pushBack built ⟨index, index + 1⟩) built) other ↔
        other ∈ indices ∨ Covered built other := by
  induction indices generalizing built bound with
  | nil => exact ⟨⟨bound, ends⟩, fun other => by simp⟩
  | cons index rest ih =>
      obtain ⟨least, sorted⟩ := List.pairwise_cons.mp ordered
      have pushed := endsBelow_pushBack ends (below index List.mem_cons_self)
      obtain ⟨ending, covers⟩ := ih pushed sorted fun other member => by
        have := least other member
        omega
      refine ⟨ending, fun other => ?_⟩
      rw [List.foldl_cons, covers, covered_pushBack ends, List.mem_cons, or_left_comm, or_assoc]

/-- Built ranges are apart. -/
theorem separated_build (ordered : indices.Pairwise (· < ·)) : Separated 0 (build indices) := by
  obtain ⟨⟨bound, ends⟩, _⟩ :=
    build_from (endsBelow_nil 0) ordered fun _ _ => Nat.zero_le _
  have placed := separated_reverseAux ends (separated_nil bound)
  rwa [List.reverseAux_eq, List.append_nil] at placed

/-- Built ranges cover the indices that were pushed. -/
theorem covered_build {other : Nat} (ordered : indices.Pairwise (· < ·)) :
    Covered (build indices) other ↔ other ∈ indices := by
  have covers := (build_from (endsBelow_nil 0) ordered
    fun _ _ => Nat.zero_le _).2 other
  rw [or_iff_left covered_nil] at covers
  rw [← covers]
  simp [build, Covered]

end Build

namespace IndexSet

/-- The set of indices that come in order. -/
def ofIndexes (indices : List Nat) (ordered : indices.Pairwise (· < ·)) : IndexSet where
  ranges := build indices
  separated := separated_build ordered

/-- A set built of indices has them. -/
@[simp] theorem toFinset_ofIndexes {indices : List Nat} {ordered : indices.Pairwise (· < ·)} :
    (ofIndexes indices ordered).toFinset = indices.toFinset := by
  ext index
  rw [mem_toFinset, List.mem_toFinset]
  exact covered_build ordered

end IndexSet

/-- The indices pushed when positions are inserted among indices. -/
def insertLoop (shift : Nat) : List Nat → List Nat → List Nat
  | [], positions => positions
  | indices, [] => indices.map (· + shift)
  | index :: indices, position :: positions =>
      if index + shift < position then
        (index + shift) :: insertLoop shift indices (position :: positions)
      else position :: insertLoop (shift + 1) (index :: indices) positions
termination_by indices positions => indices.length + positions.length

/-- The indices pushed when indices make room for positions. -/
def shiftLoop (shift : Nat) : List Nat → List Nat → List Nat
  | [], _ => []
  | indices, [] => indices.map (· + shift)
  | index :: indices, position :: positions =>
      if index + shift < position then
        (index + shift) :: shiftLoop shift indices (position :: positions)
      else shiftLoop (shift + 1) (index :: indices) positions
termination_by indices positions => indices.length + positions.length

/-- The indices pushed when positions are erased from indices. -/
def eraseLoop (shift : Nat) : List Nat → List Nat → List Nat
  | [], _ => []
  | indices, [] => indices.map (· - shift)
  | index :: indices, position :: positions =>
      if index < position then (index - shift) :: eraseLoop shift indices (position :: positions)
      else if index = position then eraseLoop (shift + 1) indices positions
      else eraseLoop (shift + 1) (index :: indices) positions
termination_by indices positions => indices.length + positions.length

section Loops

variable {shift : Nat} {indices positions : List Nat} {taken : Finset Nat}

/-- What has been passed when the loops are at some indices and positions. -/
structure Passed (taken : Finset Nat) (shift : Nat) (indices positions : List Nat) : Prop where
  counted : taken.card = shift
  sorted : positions.Pairwise (· < ·)
  before : ∀ position ∈ positions, ∀ old ∈ taken, old < position
  reached : ∀ index ∈ indices, ∀ old ∈ taken, old < index + shift

/-- A position that is not behind the shifted index is passed. -/
theorem Passed.step {index position : Nat} (ordered : (index :: indices).Pairwise (· < ·))
    (passed : Passed taken shift (index :: indices) (position :: positions))
    (late : ¬ index + shift < position) :
    Passed (insert position taken) (shift + 1) (index :: indices) positions := by
  obtain ⟨counted, sorted, before, reached⟩ := passed
  obtain ⟨least, later⟩ := List.pairwise_cons.mp sorted
  refine ⟨?_, later, ?_, ?_⟩
  · have new : position ∉ taken := fun old =>
      absurd (before position List.mem_cons_self position old) (Nat.lt_irrefl _)
    rw [Finset.card_insert_of_notMem new, counted]
  · intro other member old passed
    rcases Finset.mem_insert.mp passed with rfl | earlier
    · exact least other member
    · exact before other (List.mem_cons_of_mem _ member) old earlier
  · intro other member old passed
    have least : index ≤ other := by
      rcases List.mem_cons.mp member with rfl | rest
      · exact Nat.le_refl _
      · exact ((List.pairwise_cons.mp ordered).1 other rest).le
    rcases Finset.mem_insert.mp passed with rfl | earlier
    · omega
    · have := reached other member old earlier
      omega

/-- An index that comes before the next position is shifted by those passed. -/
theorem Passed.shift_eq {index : Nat} (passed : Passed taken shift (index :: indices) positions)
    (early : ∀ position ∈ positions, index + shift < position) :
    Positions.shift (taken ∪ positions.toFinset) index = index + shift := by
  obtain ⟨counted, sorted, before, reached⟩ := passed
  have below : (taken ∪ positions.toFinset).filter (· < index + shift) = taken := by
    ext other
    simp only [Finset.mem_filter, Finset.mem_union, List.mem_toFinset]
    constructor
    · intro inside
      refine inside.1.resolve_right fun later => ?_
      have := early other later
      omega
    · exact fun old => ⟨Or.inl old, reached index List.mem_cons_self other old⟩
  apply Positions.shift_eq_add
  · rw [Finset.mem_union, List.mem_toFinset, not_or]
    refine ⟨fun old => ?_, fun later => ?_⟩
    · exact absurd (reached index List.mem_cons_self _ old) (Nat.lt_irrefl _)
    · exact absurd (early _ later) (Nat.lt_irrefl _)
  · rw [below, counted]

/-- The positions that are left are behind an index that comes before the next one. -/
theorem Passed.early {index position : Nat}
    (passed : Passed taken shift (index :: indices) (position :: positions))
    (early : index + shift < position) :
    ∀ other ∈ position :: positions, index + shift < other := by
  intro other member
  rcases List.mem_cons.mp member with rfl | rest
  · exact early
  · exact early.trans ((List.pairwise_cons.mp passed.sorted).1 other rest)

/-- A position that moves from those left to those taken. -/
theorem insert_union_toFinset (position : Nat) (positions : List Nat) (taken : Finset Nat) :
    insert position taken ∪ positions.toFinset = taken ∪ (position :: positions).toFinset := by
  rw [List.toFinset_cons, Finset.insert_union, Finset.union_insert]

/-- What is passed stays so for the later indices. -/
theorem Passed.tail {index : Nat} (passed : Passed taken shift (index :: indices) positions) :
    Passed taken shift indices positions :=
  ⟨passed.counted, passed.sorted, passed.before, fun other member =>
    passed.reached other (List.mem_cons_of_mem _ member)⟩

/-- The indices left when all positions are passed move back by their number. -/
theorem Passed.map_add (passed : Passed taken shift indices []) :
    indices.map (· + shift) =
      indices.map (Positions.shift (taken ∪ ([] : List Nat).toFinset)) := by
  induction indices with
  | nil => rfl
  | cons index rest ih =>
      rw [List.map_cons, List.map_cons, ih passed.tail, passed.shift_eq (by simp)]

/-- **The loop shifts every index** past all positions; the induction follows the loop, which
takes an index or passes a position. -/
theorem shiftLoop_eq (ordered : indices.Pairwise (· < ·))
    (passed : Passed taken shift indices positions) :
    shiftLoop shift indices positions =
      indices.map (Positions.shift (taken ∪ positions.toFinset)) := by
  induction shift, indices, positions using shiftLoop.induct generalizing taken with
  | case1 shift positions => rw [shiftLoop, List.map_nil]
  | case2 shift indices nonempty =>
      rw [shiftLoop]
      · exact passed.map_add
      · exact nonempty
  | case3 shift index indices position positions early ih =>
      rw [shiftLoop, if_pos early, ih ordered.of_cons passed.tail, List.map_cons,
        passed.shift_eq (passed.early early)]
  | case4 shift index indices position positions late ih =>
      rw [shiftLoop, if_neg late, ih ordered (passed.step ordered late), insert_union_toFinset]

/-- A position that comes before an index stays before it. -/
theorem Passed.lt_shift {index position later : Nat}
    (passed : Passed taken shift (index :: indices) (position :: positions))
    (late : ¬ index + shift < position) (least : index ≤ later) :
    position < Positions.shift (taken ∪ (position :: positions).toFinset) later := by
  obtain ⟨counted, sorted, before, reached⟩ := passed
  have below : (taken ∪ (position :: positions).toFinset).filter (· < position) = taken := by
    ext other
    simp only [Finset.mem_filter, Finset.mem_union, List.mem_toFinset]
    constructor
    · intro inside
      refine inside.1.resolve_right fun listed => ?_
      rcases List.mem_cons.mp listed with rfl | rest
      · exact absurd inside.2 (Nat.lt_irrefl _)
      · exact absurd inside.2 ((List.pairwise_cons.mp sorted).1 other rest).asymm
    · exact fun old => ⟨Or.inl old, before position List.mem_cons_self other old⟩
  have listed : position ∈ taken ∪ (position :: positions).toFinset := by simp
  have other : Positions.shift (taken ∪ (position :: positions).toFinset) later ≠ position :=
    fun same => Positions.shift_notMem _ later (by rwa [same])
  have reached : ¬ Positions.shift (taken ∪ (position :: positions).toFinset) later < position := by
    rw [Positions.shift_lt_iff, Positions.unshift_eq_sub, below, counted]
    omega
  omega

/-- **The loop inserts the positions** and shifts the indices past them, in order. -/
theorem insertLoop_spec (ordered : indices.Pairwise (· < ·))
    (passed : Passed taken shift indices positions) :
    (insertLoop shift indices positions).Pairwise (· < ·) ∧
      ∀ other, other ∈ insertLoop shift indices positions ↔ other ∈ positions ∨
        ∃ index ∈ indices, Positions.shift (taken ∪ positions.toFinset) index = other := by
  induction shift, indices, positions using insertLoop.induct generalizing taken with
  | case1 shift positions =>
      rw [insertLoop]
      exact ⟨passed.sorted, by simp⟩
  | case2 shift indices nonempty =>
      rw [insertLoop, passed.map_add]
      · refine ⟨?_, by simp⟩
        exact ordered.map _ fun _ _ less => Positions.shift_strictMono _ less
      · exact nonempty
  | case3 shift index indices position positions early ih =>
      obtain ⟨sorted, covers⟩ := ih ordered.of_cons passed.tail
      have moved := passed.shift_eq (passed.early early)
      rw [insertLoop, if_pos early, List.pairwise_cons]
      refine ⟨⟨fun other member => ?_, sorted⟩, fun other => ?_⟩
      · rcases (covers other).mp member with listed | ⟨later, among, rfl⟩
        · exact passed.early early other listed
        · rw [← moved]
          exact Positions.shift_strictMono _ ((List.pairwise_cons.mp ordered).1 later among)
      · rw [List.mem_cons, covers, List.exists_mem_cons_iff, moved, or_left_comm, eq_comm]
  | case4 shift index indices position positions late ih =>
      obtain ⟨sorted, covers⟩ := ih ordered (passed.step ordered late)
      rw [insert_union_toFinset] at covers
      rw [insertLoop, if_neg late, List.pairwise_cons]
      refine ⟨⟨fun other member => ?_, sorted⟩, fun other => ?_⟩
      · rcases (covers other).mp member with listed | ⟨later, among, rfl⟩
        · exact (List.pairwise_cons.mp passed.sorted).1 other listed
        · refine passed.lt_shift late ?_
          rcases List.mem_cons.mp among with rfl | rest
          · exact Nat.le_refl _
          · exact ((List.pairwise_cons.mp ordered).1 later rest).le
      · rw [List.mem_cons, covers, List.mem_cons, or_assoc]

/-- What has been passed when positions are erased from indices. -/
structure Erased (taken : Finset Nat) (shift : Nat) (indices positions : List Nat) : Prop where
  counted : taken.card = shift
  sorted : positions.Pairwise (· < ·)
  before : ∀ position ∈ positions, ∀ old ∈ taken, old < position
  reached : ∀ index ∈ indices, ∀ old ∈ taken, old < index

/-- What is erased stays so for the later indices. -/
theorem Erased.tail {index : Nat} (erased : Erased taken shift (index :: indices) positions) :
    Erased taken shift indices positions :=
  ⟨erased.counted, erased.sorted, erased.before, fun other member =>
    erased.reached other (List.mem_cons_of_mem _ member)⟩

/-- A position below the indices that are left is erased. -/
theorem Erased.step {position : Nat} (erased : Erased taken shift indices (position :: positions))
    (late : ∀ index ∈ indices, position < index) :
    Erased (insert position taken) (shift + 1) indices positions := by
  obtain ⟨counted, sorted, before, reached⟩ := erased
  obtain ⟨least, later⟩ := List.pairwise_cons.mp sorted
  refine ⟨?_, later, ?_, ?_⟩
  · have new : position ∉ taken := fun old =>
      absurd (before position List.mem_cons_self position old) (Nat.lt_irrefl _)
    rw [Finset.card_insert_of_notMem new, counted]
  · intro other member old passed
    rcases Finset.mem_insert.mp passed with rfl | earlier
    · exact least other member
    · exact before other (List.mem_cons_of_mem _ member) old earlier
  · intro other member old passed
    rcases Finset.mem_insert.mp passed with rfl | earlier
    · exact late other member
    · exact reached other member old earlier

/-- An index that comes before the next position stays, moved by those passed. -/
theorem Erased.unshift_eq {index : Nat} (erased : Erased taken shift (index :: indices) positions)
    (early : ∀ position ∈ positions, index < position) :
    index ∉ taken ∪ positions.toFinset ∧
      Positions.unshift (taken ∪ positions.toFinset) index = index - shift := by
  obtain ⟨counted, sorted, before, reached⟩ := erased
  have below : (taken ∪ positions.toFinset).filter (· < index) = taken := by
    ext other
    simp only [Finset.mem_filter, Finset.mem_union, List.mem_toFinset]
    constructor
    · exact fun inside => inside.1.resolve_right fun listed =>
        absurd inside.2 (early other listed).asymm
    · exact fun old => ⟨Or.inl old, reached index List.mem_cons_self other old⟩
  refine ⟨?_, by rw [Positions.unshift_eq_sub, below, counted]⟩
  rw [Finset.mem_union, List.mem_toFinset, not_or]
  exact ⟨fun old => absurd (reached index List.mem_cons_self index old) (Nat.lt_irrefl _),
    fun listed => absurd (early index listed) (Nat.lt_irrefl _)⟩

/-- What a set keeps when others are taken from it, moved forward by them. -/
def remaining (taken : Finset Nat) (indices : List Nat) : List Nat :=
  (indices.filter fun index => index ∉ taken).map (Positions.unshift taken)

/-- An index that is not taken remains, unshifted. -/
theorem remaining_cons_of_notMem {index : Nat} (free : index ∉ taken) (indices : List Nat) :
    remaining taken (index :: indices) =
      Positions.unshift taken index :: remaining taken indices := by
  rw [remaining, List.filter_cons_of_pos (by simpa using free), List.map_cons, remaining]

/-- An index that is taken does not remain. -/
theorem remaining_cons_of_mem {index : Nat} (member : index ∈ taken) (indices : List Nat) :
    remaining taken (index :: indices) = remaining taken indices := by
  rw [remaining, List.filter_cons_of_neg (by simpa using member), remaining]

/-- When no position is left, the indices only move forward. -/
theorem Erased.map_sub (erased : Erased taken shift indices []) :
    indices.map (· - shift) = remaining (taken ∪ ([] : List Nat).toFinset) indices := by
  induction indices with
  | nil => rfl
  | cons index rest ih =>
      obtain ⟨free, moved⟩ := erased.unshift_eq (by simp)
      rw [List.map_cons, ih erased.tail, remaining_cons_of_notMem free, moved]

/-- **The loop leaves what remains**: an index is taken, dropped, or a position is passed. -/
theorem eraseLoop_eq (ordered : indices.Pairwise (· < ·))
    (erased : Erased taken shift indices positions) :
    eraseLoop shift indices positions = remaining (taken ∪ positions.toFinset) indices := by
  induction shift, indices, positions using eraseLoop.induct generalizing taken with
  | case1 shift positions =>
      rw [eraseLoop]
      rfl
  | case2 shift indices nonempty =>
      rw [eraseLoop]
      · exact erased.map_sub
      · exact nonempty
  | case3 shift index indices position positions early ih =>
      obtain ⟨free, moved⟩ := erased.unshift_eq (by
        intro other member
        rcases List.mem_cons.mp member with rfl | rest
        · exact early
        · exact early.trans ((List.pairwise_cons.mp erased.sorted).1 other rest))
      rw [eraseLoop, if_pos early, ih ordered.of_cons erased.tail, remaining_cons_of_notMem free,
        moved]
  | case4 shift indices position positions early ih =>
      have step := erased.tail.step (List.pairwise_cons.mp ordered).1
      rw [eraseLoop, if_neg early, if_pos rfl, ih ordered.of_cons step, insert_union_toFinset,
        remaining_cons_of_mem (by simp)]
  | case5 shift index indices position positions early other ih =>
      have least : ∀ later ∈ index :: indices, position < later := by
        intro later member
        rcases List.mem_cons.mp member with rfl | rest
        · omega
        · have := (List.pairwise_cons.mp ordered).1 later rest
          omega
      rw [eraseLoop, if_neg early, if_neg other, ih ordered (erased.step least),
        insert_union_toFinset]

/-- What remains is what an erasure leaves. -/
theorem mem_remaining {other : Nat} :
    other ∈ remaining taken indices ↔ other ∈ Positions.eraseAt indices.toFinset taken := by
  rw [remaining, Positions.eraseAt, List.mem_map, Finset.mem_image]
  simp only [List.mem_filter, decide_eq_true_eq, Finset.mem_sdiff, List.mem_toFinset]

/-- What remains is in order. -/
theorem pairwise_remaining (ordered : indices.Pairwise (· < ·)) :
    (remaining taken indices).Pairwise (· < ·) := by
  rw [remaining, List.pairwise_map]
  refine (ordered.filter _).imp_of_mem ?_
  intro first second here there less
  have free : first ∉ taken := by simpa using (List.mem_filter.mp here).2
  exact Positions.unshift_lt_unshift free less

end Loops

namespace IndexSet

variable {set : IndexSet} {index : Nat}

/-- No position is passed at first. -/
theorem passed_start (set positions : IndexSet) :
    Passed ∅ 0 set.asIndexes positions.asIndexes :=
  ⟨rfl, positions.pairwise_asIndexes, by simp, by simp⟩

/-- The positions of another set are inserted. -/
def insertAll (set positions : IndexSet) : IndexSet :=
  if positions.ranges.isEmpty then set
  else if set.ranges.isEmpty then positions
  else ofIndexes (insertLoop 0 set.asIndexes positions.asIndexes)
    (insertLoop_spec set.pairwise_asIndexes (set.passed_start positions)).1

/-- A set without ranges has no indices. -/
theorem toFinset_of_isEmpty {set : IndexSet} (empty : set.ranges.isEmpty = true) :
    set.toFinset = ∅ := by
  rw [toFinset, asIndexes, List.isEmpty_iff.mp empty]
  rfl

/-- Inserting a set is inserting its positions. -/
@[simp] theorem toFinset_insertAll (set positions : IndexSet) :
    (set.insertAll positions).toFinset =
      Positions.insertAt set.toFinset positions.toFinset := by
  rw [insertAll]
  by_cases none : positions.ranges.isEmpty = true
  · rw [if_pos none, toFinset_of_isEmpty none, Positions.insertAt_empty]
  · rw [if_neg none]
    by_cases empty : set.ranges.isEmpty = true
    · rw [if_pos empty, toFinset_of_isEmpty empty, Positions.empty_insertAt]
    · rw [if_neg empty]
      ext index
      rw [toFinset_ofIndexes, List.mem_toFinset,
        (insertLoop_spec set.pairwise_asIndexes (set.passed_start positions)).2,
        Finset.empty_union, Positions.insertAt, Positions.shiftForInsertAt, Finset.mem_union,
        Finset.mem_image]
      simp only [toFinset, List.mem_toFinset]

/-- The loop over all indices and all positions. -/
theorem shiftLoop_start (set positions : IndexSet) :
    shiftLoop 0 set.asIndexes positions.asIndexes =
      set.asIndexes.map (Positions.shift positions.toFinset) := by
  rw [shiftLoop_eq set.pairwise_asIndexes (set.passed_start positions), Finset.empty_union,
    toFinset]

/-- The shifted indices are in order. -/
theorem pairwise_shiftLoop (set positions : IndexSet) :
    (shiftLoop 0 set.asIndexes positions.asIndexes).Pairwise (· < ·) := by
  rw [shiftLoop_start]
  exact set.pairwise_asIndexes.map _ fun _ _ less => Positions.shift_strictMono _ less

/-- The indices move back to make room for the positions of another set. -/
def shiftForInsertAll (set positions : IndexSet) : IndexSet :=
  match set.ranges.getLast?, positions.ranges.head? with
  | some last, some first =>
      if first.first ≥ last.second then set
      else ofIndexes (shiftLoop 0 set.asIndexes positions.asIndexes)
        (pairwise_shiftLoop set positions)
  | _, _ => set

/-- A set that ends before another one begins is not shifted by it. -/
theorem shiftForInsertAt_of_beyond {positions : IndexSet} {first last : Range}
    (ends : set.ranges.getLast? = some last) (begins : positions.ranges.head? = some first)
    (beyond : first.first ≥ last.second) :
    Positions.shiftForInsertAt set.toFinset positions.toFinset = set.toFinset := by
  obtain ⟨rest, split⟩ := List.head?_eq_some_iff.mp begins
  have separated := positions.separated
  rw [split] at separated
  have start : Separated first.first positions.ranges := by
    rw [split]
    exact ⟨Nat.le_refl _, separated.2⟩
  have stays : ∀ index ∈ set.toFinset, Positions.shift positions.toFinset index = index := by
    intro index member
    apply Positions.shift_eq_self
    intro position listed
    have := start.le_of_covered (mem_toFinset.mp listed)
    have := (set.separated.lt_of_getLast? ends).2 index (mem_toFinset.mp member)
    omega
  rw [Positions.shiftForInsertAt, Finset.image_congr (g := id) stays, Finset.image_id]

/-- Shifting for a set is making room for its positions. -/
@[simp] theorem toFinset_shiftForInsertAll (set positions : IndexSet) :
    (set.shiftForInsertAll positions).toFinset =
      Positions.shiftForInsertAt set.toFinset positions.toFinset := by
  rw [shiftForInsertAll]
  cases ends : set.ranges.getLast? with
  | none =>
      rw [toFinset_of_isEmpty (by simpa using ends), Positions.empty_shiftForInsertAt]
  | some last =>
      cases begins : positions.ranges.head? with
      | none =>
          have empty : positions.ranges.isEmpty = true := by simpa using begins
          rw [toFinset_of_isEmpty empty, Positions.shiftForInsertAt_empty]
      | some first =>
          by_cases beyond : first.first ≥ last.second
          · simp only [if_pos beyond]
            exact (shiftForInsertAt_of_beyond ends begins beyond).symm
          · simp only [if_neg beyond]
            rw [toFinset_ofIndexes, shiftLoop_start, Positions.shiftForInsertAt]
            ext index
            simp [toFinset]

/-- The loop over all indices and all positions. -/
theorem eraseLoop_start (set positions : IndexSet) :
    eraseLoop 0 set.asIndexes positions.asIndexes = remaining positions.toFinset set.asIndexes := by
  rw [eraseLoop_eq set.pairwise_asIndexes
    ⟨Finset.card_empty, positions.pairwise_asIndexes, by simp, by simp⟩, Finset.empty_union,
      toFinset]

/-- The indices that remain are in order. -/
theorem pairwise_eraseLoop (set positions : IndexSet) :
    (eraseLoop 0 set.asIndexes positions.asIndexes).Pairwise (· < ·) := by
  rw [eraseLoop_start]
  exact pairwise_remaining set.pairwise_asIndexes

/-- The positions of another set are erased. -/
def eraseAll (set positions : IndexSet) : IndexSet :=
  if set.ranges.isEmpty || positions.ranges.isEmpty then set
  else ofIndexes (eraseLoop 0 set.asIndexes positions.asIndexes) (pairwise_eraseLoop set positions)

/-- Erasing a set is erasing its positions. -/
@[simp] theorem toFinset_eraseAll (set positions : IndexSet) :
    (set.eraseAll positions).toFinset = Positions.eraseAt set.toFinset positions.toFinset := by
  rw [eraseAll]
  by_cases empty : set.ranges.isEmpty = true
  · rw [empty, Bool.true_or, if_pos rfl, toFinset_of_isEmpty empty, Positions.empty_eraseAt]
  · by_cases none : positions.ranges.isEmpty = true
    · rw [none, Bool.or_true, if_pos rfl, toFinset_of_isEmpty none, Positions.eraseAt_empty]
    · rw [if_neg (by simp [empty, none])]
      ext index
      rw [toFinset_ofIndexes, List.mem_toFinset, eraseLoop_start, mem_remaining]
      rfl

def clear : IndexSet := ⟨[], trivial⟩

/-- Nothing is left after clearing. -/
@[simp] theorem toFinset_clear : clear.toFinset = ∅ := rfl

/-- All indices are replaced by those below a length. -/
def setLength (length : Nat) : IndexSet where
  ranges := if length = 0 then [] else [⟨0, length⟩]
  separated := by
    split
    · trivial
    · exact ⟨Nat.le_refl _, Nat.pos_of_ne_zero ‹_›, trivial⟩

/-- The set of a length has the indices below it. -/
@[simp] theorem toFinset_setLength (length : Nat) :
    (setLength length).toFinset = Finset.range length := by
  ext index
  rw [mem_toFinset, Finset.mem_range, setLength]
  by_cases none : length = 0
  · simp [none]
  · simp [none]

end IndexSet

/-! ## Adding indices shifted by two sets -/

/-- Passes the ranges that begin at an index or below: their indices are added up, and
those before the end of the last one are skipped. -/
def passShifts (index newShift skipUntil : Nat) : List Range → (Nat × Nat) × List Range
  | [] => ((newShift, skipUntil), [])
  | range :: rest =>
      if range.first ≤ index then passShifts index (newShift + range.size) range.second rest
      else ((newShift, skipUntil), range :: rest)

/-- The indices pushed when values that were shifted by ranges are added to old ranges,
which shift them again. -/
def addLoop (newShift skipUntil oldShift : Nat) (shifts old : List Range) :
    List Nat → List Nat
  | [] => indexes old
  | index :: values =>
      let ((newShift, skipUntil), shifts) := passShifts index newShift skipUntil shifts
      if index < skipUntil then addLoop newShift skipUntil oldShift shifts old values
      else
        let (oldShift, cursor) := Cursor.overtake (index - newShift) oldShift [] old
        indexes cursor.before.reverse ++ (index - newShift + oldShift) ::
          addLoop newShift skipUntil oldShift shifts cursor.after values

section AddLoop

variable {set shiftedBy : IndexSet} {index newShift skipUntil oldShift : Nat}

/-- Some ranges of a set have been passed: they hold a number of indices. -/
structure Passing (set : IndexSet) (shift : Nat) (before after : List Range) : Prop where
  around : Cursor.ranges ⟨before, after⟩ = set.ranges
  sound : Cursor.Sound ⟨before, after⟩
  counted : shift = (before.map Range.size).sum

/-- No range is passed at first. -/
theorem passing_start (set : IndexSet) : Passing set 0 [] set.ranges :=
  ⟨rfl, ⟨0, trivial, set.separated⟩, rfl⟩

/-- Which ranges have been passed for an index: the last one begins there or before, and
the next one after it. -/
theorem Passing.passShifts {before after : List Range} (passing : Passing set newShift before after)
    (begun : ∀ range ∈ before.head?, range.first ≤ index ∧ skipUntil = range.second)
    (unused : before = [] → skipUntil = 0) :
    ∃ passed, Passing set (passShifts index newShift skipUntil after).1.1 passed
        (Realm.passShifts index newShift skipUntil after).2 ∧
      (∀ range ∈ passed.head?, range.first ≤ index ∧
        (Realm.passShifts index newShift skipUntil after).1.2 = range.second) ∧
      (passed = [] → (Realm.passShifts index newShift skipUntil after).1.2 = 0) ∧
      ∀ range ∈ (Realm.passShifts index newShift skipUntil after).2.head?, index < range.first := by
  induction after generalizing before newShift skipUntil with
  | nil => exact ⟨before, passing, begun, unused, by simp [Realm.passShifts]⟩
  | cons range rest ih =>
      rw [Realm.passShifts]
      by_cases reached : range.first ≤ index
      · rw [if_pos reached]
        obtain ⟨bound, ends, apart, occupied, later⟩ := passing.sound
        have here : Passing set (newShift + range.size) (range :: before) rest := by
          refine ⟨passing.around, ?_, ?_⟩
          · exact ⟨range.second + 1, ⟨occupied, Nat.lt_succ_self _, ends.mono apart⟩, later⟩
          · rw [List.map_cons, List.sum_cons, passing.counted, Nat.add_comm]
        refine ih here ?_ (by simp)
        intro other same
        obtain rfl := Option.some.inj same
        exact ⟨reached, rfl⟩
      · rw [if_neg reached]
        refine ⟨before, passing, begun, unused, ?_⟩
        intro other same
        obtain rfl := Option.some.inj same
        exact Nat.lt_of_not_le reached

/-- An index that is not skipped is not in the set, and is moved by what was passed. -/
theorem Passing.unshift_eq {before after : List Range}
    (passing : Passing set newShift before after)
    (begun : ∀ range ∈ before.head?, range.second ≤ index)
    (beyond : ∀ range ∈ after.head?, index < range.first) :
    index ∉ set.toFinset ∧ Positions.unshift set.toFinset index + newShift = index := by
  obtain ⟨around, ⟨bound, ends, separated⟩, counted⟩ := passing
  have standing : Cursor.At index ⟨before, after⟩ := by
    refine ⟨?_, fun range same => ?_⟩
    · cases before with
      | nil => exact ⟨0, Nat.zero_le _, trivial, separated.mono (Nat.zero_le _)⟩
      | cons range rest =>
          obtain ⟨occupied, near, earlier⟩ := ends
          exact ⟨range.second + 1, Nat.succ_le_succ (begun range rfl),
            ⟨occupied, Nat.lt_succ_self _, earlier⟩, separated.mono near⟩
    · obtain ⟨rest, rfl⟩ := List.head?_eq_some_iff.mp same
      exact (beyond range rfl).trans separated.2.1
  have outside : Cursor.contains ⟨before, after⟩ index = false := by
    cases after with
    | nil => rfl
    | cons range rest =>
        have := beyond range rfl
        simp only [Cursor.contains, List.head?_cons, Option.any_some, decide_eq_false_iff_not]
        omega
  refine ⟨?_, ?_⟩
  · rw [← Bool.not_eq_true, ← standing.covered_iff_contains] at outside
    rwa [IndexSet.mem_toFinset, ← around]
  · rw [counted]
    exact IndexSet.unshift_add_sum around standing outside

/-- An index that is skipped is in the set. -/
theorem Passing.mem_toFinset {before after : List Range}
    (passing : Passing set newShift before after) {range : Range} (last : range ∈ before.head?)
    (covers : range.Covers index) : index ∈ set.toFinset := by
  obtain ⟨rest, rfl⟩ := List.head?_eq_some_iff.mp last
  rw [IndexSet.mem_toFinset, ← passing.around, Cursor.covered_ranges, covered_cons]
  exact Or.inl (Or.inl covers)

/-- **Passing what a shifted index overtakes** shifts it by the whole set. -/
theorem Passing.overtake {before after : List Range} {bound : Nat}
    (passing : Passing set oldShift before after) (ends : EndsBelow bound before)
    (separated : Separated bound after) (below : bound ≤ index + oldShift + 1) :
    let passed := Cursor.overtake index oldShift [] after
    index + passed.1 = Positions.shift set.toFinset index ∧
      Passing set passed.1 (passed.2.before ++ before) passed.2.after ∧
      (∃ bound, bound ≤ index + passed.1 + 1 ∧ EndsBelow bound (passed.2.before ++ before) ∧
        Separated bound passed.2.after) ∧
      (∀ range ∈ passed.2.after.head?, index + passed.1 < range.first) ∧
      passed.2.ranges = after := by
  intro passed
  obtain ⟨around, standing, outside, total⟩ := Cursor.overtake_spec ends below separated
  have whole := Cursor.overtake_append index oldShift [] before after
  rw [List.nil_append] at whole
  rw [whole] at around standing outside total
  have same : Cursor.ranges ⟨passed.2.before ++ before, passed.2.after⟩ = set.ranges :=
    around.trans passing.around
  have counted : passed.1 = ((passed.2.before ++ before).map Range.size).sum := by
    have := passing.counted
    change passed.1 + (before.map Range.size).sum =
      oldShift + ((passed.2.before ++ before).map Range.size).sum at total
    omega
  refine ⟨?_, ⟨same, standing.sound, counted⟩, standing.placed, ?_, ?_⟩
  · symm
    have moved := IndexSet.unshift_add_sum same standing outside
    rw [← counted] at moved
    rw [Positions.shift_eq_iff]
    refine ⟨?_, Nat.add_right_cancel moved⟩
    rw [← Bool.not_eq_true, ← standing.covered_iff_contains] at outside
    rwa [IndexSet.mem_toFinset, ← same]
  · intro range first
    obtain ⟨rest, split⟩ := List.head?_eq_some_iff.mp first
    exact Cursor.lt_of_not_contains outside standing
      (congrArg (Cursor.mk _) split)
  · have none := Cursor.overtake_spec (endsBelow_nil 0) (Nat.zero_le (index + oldShift + 1))
      (separated.mono (Nat.zero_le _))
    exact none.1

/-- **The pushed indices** are the old ones, and the values shifted from one set into the
other; they come in order. -/
theorem addLoop_spec {values : List Nat} {passed shifts before old : List Range} {bound : Nat}
    (ordered : values.Pairwise (· < ·)) (shifting : Passing shiftedBy newShift passed shifts)
    (begun : ∀ value ∈ values, ∀ range ∈ passed.head?,
      range.first ≤ value ∧ skipUntil = range.second)
    (unused : passed = [] → skipUntil = 0) (passing : Passing set oldShift before old)
    (ends : EndsBelow bound before) (separated : Separated bound old)
    (below : ∀ value ∈ values, value ∉ shiftedBy.toFinset →
      bound ≤ Positions.unshift shiftedBy.toFinset value + oldShift + 1) :
    (addLoop newShift skipUntil oldShift shifts old values).Pairwise (· < ·) ∧
      ∀ other, other ∈ addLoop newShift skipUntil oldShift shifts old values ↔
        other ∈ indexes old ∨ ∃ value ∈ values, value ∉ shiftedBy.toFinset ∧
          Positions.shift set.toFinset (Positions.unshift shiftedBy.toFinset value) = other := by
  induction values generalizing newShift skipUntil oldShift passed shifts before old bound with
  | nil => exact ⟨separated.pairwise_indexes, fun other => by simp [addLoop]⟩
  | cons value values ih =>
      obtain ⟨least, later⟩ := List.pairwise_cons.mp ordered
      obtain ⟨passed', shifting', begun', unused', beyond⟩ :=
        shifting.passShifts (begun value List.mem_cons_self) unused
      rw [addLoop]
      generalize passShifts value newShift skipUntil shifts = next at *
      obtain ⟨⟨newShift', skipUntil'⟩, shifts'⟩ := next
      dsimp only at shifting' begun' unused' beyond
      have reached : ∀ other ∈ values, ∀ range ∈ passed'.head?,
          range.first ≤ other ∧ skipUntil' = range.second := fun other member range last =>
        ⟨(begun' range last).1.trans (least other member).le, (begun' range last).2⟩
      by_cases skipped : value < skipUntil'
      · simp only [if_pos skipped]
        have inside : value ∈ shiftedBy.toFinset := by
          cases last : passed' with
          | nil =>
              have := unused' last
              omega
          | cons range rest =>
              have covers := begun' range (by rw [last]; rfl)
              have newest : range ∈ passed'.head? := by
                rw [last]
                rfl
              exact shifting'.mem_toFinset newest ⟨covers.1, covers.2 ▸ skipped⟩
        obtain ⟨sorted, covers⟩ := ih later shifting' reached unused' passing ends separated
          fun other member => below other (List.mem_cons_of_mem _ member)
        refine ⟨sorted, fun other => ?_⟩
        rw [covers]
        simp [inside]
      · simp only [if_neg skipped]
        have reached' : ∀ range ∈ passed'.head?, range.second ≤ value := fun range last =>
          (begun' range last).2 ▸ Nat.le_of_not_lt skipped
        obtain ⟨outside, moved⟩ := shifting'.unshift_eq reached' beyond
        have same : value - newShift' = Positions.unshift shiftedBy.toFinset value := by omega
        obtain ⟨shifted, onward, ⟨bound', below', ends', separated'⟩, above, around⟩ :=
          passing.overtake ends separated (below value List.mem_cons_self outside)
        rw [same]
        generalize Cursor.overtake (Positions.unshift shiftedBy.toFinset value) oldShift [] old
          = next at *
        obtain ⟨oldShift', before', after'⟩ := next
        dsimp only at shifted onward ends' separated' below' above around
        have farther : ∀ other ∈ values, other ∉ shiftedBy.toFinset →
            Positions.unshift shiftedBy.toFinset value <
              Positions.unshift shiftedBy.toFinset other := fun other member _ =>
          Positions.unshift_lt_unshift outside (least other member)
        obtain ⟨sorted, covers⟩ := ih later shifting' reached unused' onward ends' separated'
          fun other member free => by
            have := farther other member free
            omega
        have all : indexes old = indexes before'.reverse ++ indexes after' := by
          rw [← around, Cursor.ranges, List.reverseAux_eq, indexes, indexes, indexes,
            List.flatMap_append]
        have earlier : ∀ other ∈ indexes before'.reverse,
            other < Positions.unshift shiftedBy.toFinset value + oldShift' := by
          intro other member
          have covered : Covered (before' ++ before) other := by
            have covered := mem_indexes.mp member
            simp only [Covered, List.mem_reverse, List.mem_append] at covered ⊢
            exact covered.imp fun range inside => ⟨Or.inl inside.1, inside.2⟩
          have := ends'.lt_of_covered covered
          omega
        have after : ∀ other ∈ addLoop newShift' skipUntil' oldShift' shifts' after' values,
            Positions.unshift shiftedBy.toFinset value + oldShift' < other := by
          intro other member
          rcases (covers other).mp member with rest | ⟨next, among, free, rfl⟩
          · cases found : after' with
            | nil => simp [found, indexes] at rest
            | cons range others =>
                have start : Separated range.first after' := by
                  rw [found] at separated' ⊢
                  exact ⟨Nat.le_refl _, separated'.2⟩
                have := start.le_of_covered (mem_indexes.mp rest)
                have := above range (by rw [found]; rfl)
                omega
          · rw [shifted]
            exact Positions.shift_strictMono _ (farther next among free)
        refine ⟨?_, fun other => ?_⟩
        · rw [List.pairwise_append, List.pairwise_cons]
          refine ⟨?_, ⟨after, sorted⟩, ?_⟩
          · have ordered := separated.pairwise_indexes
            rw [all] at ordered
            exact (List.pairwise_append.mp ordered).1
          · intro first here second there
            rcases List.mem_cons.mp there with rfl | rest
            · exact earlier first here
            · exact (earlier first here).trans (after second rest)
        · rw [all, List.mem_append, List.mem_append, List.mem_cons, covers, shifted,
            List.exists_mem_cons_iff]
          simp only [outside, not_false_eq_true, true_and, or_assoc, eq_comm (a := other)]
          exact or_congr_right or_left_comm

end AddLoop

namespace IndexSet

variable (set shiftedBy values : IndexSet)

/-- The loop over all values, with no range passed. -/
theorem addLoop_start :
    (addLoop 0 0 0 shiftedBy.ranges set.ranges values.asIndexes).Pairwise (· < ·) ∧
      ∀ other, other ∈ addLoop 0 0 0 shiftedBy.ranges set.ranges values.asIndexes ↔
        other ∈ set.asIndexes ∨ ∃ value ∈ values.asIndexes, value ∉ shiftedBy.toFinset ∧
          Positions.shift set.toFinset (Positions.unshift shiftedBy.toFinset value) = other :=
  addLoop_spec values.pairwise_asIndexes (passing_start shiftedBy) (by simp) (fun _ => rfl)
    (passing_start set) (endsBelow_nil 0) set.separated fun _ _ _ => Nat.zero_le _

/-- The values of a set are added, moved forward by the indices of another set, which they
were shifted by, and back by the indices there. -/
def addShiftedBy : IndexSet :=
  if values.ranges.isEmpty then set
  else ofIndexes (addLoop 0 0 0 shiftedBy.ranges set.ranges values.asIndexes)
    (addLoop_start set shiftedBy values).1

/-- **Adding shifted values** adds those that are not in the set that shifted them. -/
@[simp] theorem toFinset_addShiftedBy :
    (set.addShiftedBy shiftedBy values).toFinset = set.toFinset ∪
      (Positions.eraseAt values.toFinset shiftedBy.toFinset).image
        (Positions.shift set.toFinset) := by
  rw [addShiftedBy]
  by_cases none : values.ranges.isEmpty = true
  · rw [if_pos none, toFinset_of_isEmpty none, Positions.empty_eraseAt, Finset.image_empty,
      Finset.union_empty]
  · rw [if_neg none]
    ext index
    rw [toFinset_ofIndexes, List.mem_toFinset, (addLoop_start set shiftedBy values).2,
      Finset.mem_union, Finset.mem_image]
    simp only [Positions.eraseAt, Finset.mem_image, Finset.mem_sdiff, toFinset, List.mem_toFinset]
    grind

/-! ## What operations mean -/

/-- What is done with a set, or asked of it; other sets that it takes part with are given. -/
inductive Operation (σ : Type) where
  | add (index : Nat)
  | addSet (other : σ)
  | addShifted (index : Nat)
  | addShiftedBy (shiftedBy values : σ)
  | setLength (length : Nat)
  | clear
  | insertAt (index count : Nat)
  | insertAll (positions : σ)
  | shiftForInsertAt (index count : Nat) (positive : 0 < count)
  | shiftForInsertAll (positions : σ)
  | eraseAt (index : Nat)
  | eraseAll (positions : σ)
  | eraseOrUnshift (index : Nat)
  | remove (index : Nat)
  | removeSet (other : σ)
  | contains (index : Nat)
  | count (start stop : Nat)
  | shift (index : Nat)
  | unshift (index : Nat)

/-- What is answered: nothing, a number, that there is none, or whether an index is there. -/
inductive Reply where
  | done
  | number (value : Nat)
  | npos
  | contained (answer : Bool)
deriving DecidableEq

/-- The same operation, with the other sets seen in another way. -/
def Operation.map {σ τ : Type} (view : σ → τ) : Operation σ → Operation τ
  | .add index => .add index
  | .addSet other => .addSet (view other)
  | .addShifted index => .addShifted index
  | .addShiftedBy shiftedBy values => .addShiftedBy (view shiftedBy) (view values)
  | .setLength length => .setLength length
  | .clear => .clear
  | .insertAt index number => .insertAt index number
  | .insertAll positions => .insertAll (view positions)
  | .shiftForInsertAt index number positive => .shiftForInsertAt index number positive
  | .shiftForInsertAll positions => .shiftForInsertAll (view positions)
  | .eraseAt index => .eraseAt index
  | .eraseAll positions => .eraseAll (view positions)
  | .eraseOrUnshift index => .eraseOrUnshift index
  | .remove index => .remove index
  | .removeSet other => .removeSet (view other)
  | .contains index => .contains index
  | .count start stop => .count start stop
  | .shift index => .shift index
  | .unshift index => .unshift index

/-- What an operation means for a set of indices: the answer, and the set after it. -/
noncomputable def meaning (indices : Finset Nat) : Operation (Finset Nat) → Reply × Finset Nat
  | .add index => (.done, insert index indices)
  | .addSet other => (.done, indices ∪ other)
  | .addShifted index =>
      (.number (Positions.shift indices index), insert (Positions.shift indices index) indices)
  | .addShiftedBy shiftedBy values =>
      (.done, indices ∪ (Positions.eraseAt values shiftedBy).image (Positions.shift indices))
  | .setLength length => (.done, Finset.range length)
  | .clear => (.done, ∅)
  | .insertAt index count =>
      (.done, Positions.insertAt indices (Finset.Ico index (index + count)))
  | .insertAll positions => (.done, Positions.insertAt indices positions)
  | .shiftForInsertAt index count _ =>
      (.done, Positions.shiftForInsertAt indices (Finset.Ico index (index + count)))
  | .shiftForInsertAll positions => (.done, Positions.shiftForInsertAt indices positions)
  | .eraseAt index => (.done, Positions.eraseAt indices {index})
  | .eraseAll positions => (.done, Positions.eraseAt indices positions)
  | .eraseOrUnshift index =>
      (if index ∈ indices then .npos else .number (Positions.unshift indices index),
        Positions.eraseAt indices {index})
  | .remove index => (.done, indices.erase index)
  | .removeSet other => (.done, indices \ other)
  | .contains index => (.contained (index ∈ indices), indices)
  | .count start stop =>
      (.number (indices.filter fun index => start ≤ index ∧ index < stop).card, indices)
  | .shift index => (.number (Positions.shift indices index), indices)
  | .unshift index => (.number (Positions.unshift indices index), indices)

/-- What operations made one after the other mean for a set of indices. -/
noncomputable def meaningAll (indices : Finset Nat) :
    List (Operation (Finset Nat)) → List Reply × Finset Nat
  | [] => ([], indices)
  | operation :: operations =>
      let rest := meaningAll (meaning indices operation).2 operations
      ((meaning indices operation).1 :: rest.1, rest.2)

/-- The answer of an operation, and the set after it. -/
def perform (set : IndexSet) : Operation IndexSet → Reply × IndexSet
  | .add index => (.done, set.add index)
  | .addSet other => (.done, set.addSet other)
  | .addShifted index => (.number (set.addShifted index).1, (set.addShifted index).2)
  | .addShiftedBy shiftedBy values => (.done, set.addShiftedBy shiftedBy values)
  | .setLength length => (.done, IndexSet.setLength length)
  | .clear => (.done, IndexSet.clear)
  | .insertAt index count => (.done, set.insertAt index count)
  | .insertAll positions => (.done, set.insertAll positions)
  | .shiftForInsertAt index count positive => (.done, set.shiftForInsertAt index count positive)
  | .shiftForInsertAll positions => (.done, set.shiftForInsertAll positions)
  | .eraseAt index => (.done, set.eraseAt index)
  | .eraseAll positions => (.done, set.eraseAll positions)
  | .eraseOrUnshift index =>
      ((set.eraseOrUnshift index).1.elim .npos .number, (set.eraseOrUnshift index).2)
  | .remove index => (.done, set.remove index)
  | .removeSet other => (.done, set.removeSet other)
  | .contains index => (.contained (set.contains index), set)
  | .count start stop => (.number (set.count start stop), set)
  | .shift index => (.number (set.shift index), set)
  | .unshift index => (.number (set.unshift index), set)

/-- **An operation does what it means** for the indices of a set. -/
theorem perform_refines (set : IndexSet) (operation : Operation IndexSet) :
    ((set.perform operation).1, (set.perform operation).2.toFinset) =
      meaning set.toFinset (operation.map toFinset) := by
  cases operation with
  | contains index =>
      have same : set.contains index = decide (index ∈ set.toFinset) :=
        Bool.eq_iff_iff.mpr (contains_iff.trans decide_eq_true_iff.symm)
      rw [perform, Operation.map, meaning, same]
  | count start stop => rw [perform, Operation.map, meaning, count_eq_card]
  | eraseOrUnshift index =>
      simp only [perform, Operation.map, meaning, eraseOrUnshift_eq, toFinset_eraseAt]
      by_cases inside : set.contains index = true
      · rw [if_pos inside, if_pos (contains_iff.mp inside)]
        rfl
      · rw [if_neg inside, if_neg (fun member => inside (contains_iff.mpr member)), unshift_eq]
        rfl
  | _ => simp [perform, Operation.map, meaning]

end IndexSet

end EventTalks.Realm

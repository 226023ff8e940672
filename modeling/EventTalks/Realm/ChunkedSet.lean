import EventTalks.Realm.ChunkedRangeVector
import EventTalks.Realm.RangeBuilder

/-! # Index sets in chunks

Operations on whole index sets build chunks anew, and runs of operations are those of sets of
indices (`EventTalks.Realm.ChunkedSet.performAll_refines`), as long as no count leaves anything
out and no chunk is begun that there is no room for: the source gives it a wrong number.
-/

namespace EventTalks.Realm

namespace ChunkedRangeVector

/-! ## Building chunks -/

/-- Indices as ranges of one index. -/
def singles (indices : List Nat) : List Range := indices.map fun index => ⟨index, index + 1⟩

/-- A range put at the end of chunks, the last one first. When the last one is full, another one
is begun; beyond the chunks that there is room for, it gets the number one, whatever its range. -/
def pushChunk (room : Nat) (built : List Chunk) (range : Range) : List Chunk :=
  match built with
  | [] => [⟨[range], range.size⟩]
  | chunk :: earlier =>
      match chunk.data.reverse with
      | [] => ⟨[range], range.size⟩ :: earlier
      | last :: initial =>
          if range.first = last.second then
            ⟨(⟨last.first, range.second⟩ :: initial).reverse, chunk.count + range.size⟩ :: earlier
          else if chunk.data.length < maxSize then
            ⟨chunk.data ++ [range], chunk.count + range.size⟩ :: earlier
          else
            ⟨[range], if earlier.length + 1 < room then range.size else 1⟩ :: chunk :: earlier

/-- The chunks of ranges that are pushed one after the other. -/
def build (room : Nat) (pushes : List Range) : ChunkedRangeVector :=
  (pushes.foldl (pushChunk room) []).reverse

/-- As many chunks as there is room for when the ranges are built anew. -/
def room (vector : ChunkedRangeVector) : Nat := (rangesOf vector).length / maxSize + 1

/-- Chunks are built of ranges, the last one first. -/
structure Built (built : List Chunk) (ranges : List Range) : Prop where
  sound : ∀ chunk ∈ built, chunk.Sound
  listed : passedOf built = ranges
  occupied : ∀ range ∈ ranges, range.first < range.second

section Build

variable {built : List Chunk} {ranges pushes old shifts : List Range} {range : Range}
  {room newShift skipUntil oldShift : Nat} {indices values : List Nat}

/-- **A pushed range** joins the last one or is put after it. Its chunk has the right number if
the range has one index, or there is room for the chunk. -/
theorem Built.pushChunk (so_far : Built built ranges) (occupied : range.first < range.second)
    (numbered : range.size = 1 ∨ (pushChunk room built range).length ≤ room) :
    Built (pushChunk room built range) (pushBack ranges range) := by
  obtain ⟨sound, rfl, filled⟩ := so_far
  have alone : Chunk.Sound ⟨[range], range.size⟩ :=
    ⟨List.cons_ne_nil _ _, by simp [maxSize], by simp⟩
  cases built with
  | nil => exact ⟨List.forall_mem_singleton.mpr alone, rfl, List.forall_mem_singleton.mpr occupied⟩
  | cons chunk earlier =>
      obtain ⟨here, others⟩ := List.forall_mem_cons.mp sound
      obtain ⟨data, number⟩ := chunk
      cases split : data.reverse with
      | nil => exact absurd (List.reverse_eq_nil_iff.mp split) here.occupied
      | cons last initial =>
          obtain rfl : data = (last :: initial).reverse := by rw [← split, List.reverse_reverse]
          rw [passedOf_cons, List.reverse_reverse, List.cons_append] at filled ⊢
          obtain ⟨ending, remaining⟩ := List.forall_mem_cons.mp filled
          have counted := here.counted
          have bounded := here.bounded
          simp only [sizes_reverse, sizes_cons] at counted
          rw [ChunkedRangeVector.pushChunk] at numbered ⊢
          rw [pushBack]
          simp only [split] at numbered ⊢
          by_cases joined : range.first = last.second
          · -- the last range becomes longer
            simp only [if_pos joined]
            refine ⟨List.forall_mem_cons.mpr ⟨⟨by simp, ?_, ?_⟩, others⟩, ?_,
              List.forall_mem_cons.mpr ⟨?_, remaining⟩⟩
            · simpa using bounded
            · simp only [counted, sizes_reverse, sizes_cons, Range.size]
              omega
            · simp
            · change last.first < range.second
              omega
          · simp only [if_neg joined] at numbered ⊢
            have listed : ∀ other ∈ range :: last :: (initial ++ passedOf earlier),
                other.first < other.second := List.forall_mem_cons.mpr ⟨occupied, filled⟩
            by_cases space : (last :: initial).reverse.length < maxSize
            · -- the last chunk gets one more range
              simp only [if_pos space]
              refine ⟨List.forall_mem_cons.mpr ⟨⟨by simp, ?_, ?_⟩, others⟩, by simp, listed⟩
              · rw [List.length_append]
                exact space
              · simp only [counted, sizes_append, sizes_reverse, sizes_cons, sizes_nil]
                omega
            · -- another chunk is begun
              simp only [if_neg space] at numbered ⊢
              have number : (if earlier.length + 1 < room then (range.size : Int) else 1) =
                  range.size := by
                split
                · rfl
                · simp only [List.length_cons] at numbered
                  omega
              rw [number]
              exact ⟨List.forall_mem_cons.mpr ⟨alone, sound⟩, by simp, listed⟩

/-- A push does not take out a chunk. -/
theorem length_le_pushChunk (room : Nat) (built : List Chunk) (range : Range) :
    built.length ≤ (pushChunk room built range).length := by
  cases built with
  | nil => exact Nat.zero_le _
  | cons chunk earlier =>
      rw [pushChunk]
      split
      · exact Nat.le_refl _
      · split
        · exact Nat.le_refl _
        · split
          · exact Nat.le_refl _
          · exact Nat.le_succ _

/-- Pushes do not take out a chunk. -/
theorem length_le_foldl_pushChunk (room : Nat) (built : List Chunk) (pushes : List Range) :
    built.length ≤ (pushes.foldl (pushChunk room) built).length := by
  induction pushes generalizing built with
  | nil => exact Nat.le_refl _
  | cons range pushes ih => exact (length_le_pushChunk room built range).trans (ih _)

/-- **Pushed ranges** are put one after the other. -/
theorem Built.foldl (so_far : Built built ranges)
    (occupied : ∀ range ∈ pushes, range.first < range.second)
    (numbered : (∀ range ∈ pushes, range.size = 1) ∨
      (pushes.foldl (ChunkedRangeVector.pushChunk room) built).length ≤ room) :
    Built (pushes.foldl (ChunkedRangeVector.pushChunk room) built)
      (pushes.foldl pushBack ranges) := by
  induction pushes generalizing built ranges with
  | nil => exact so_far
  | cons range pushes ih =>
      obtain ⟨first, others⟩ := List.forall_mem_cons.mp occupied
      rw [List.foldl_cons] at numbered
      apply ih (so_far.pushChunk first _) others
      · exact numbered.imp_left fun single => (List.forall_mem_cons.mp single).2
      · apply numbered.imp
        · exact fun single => (List.forall_mem_cons.mp single).1
        · exact (length_le_foldl_pushChunk _ _ pushes).trans

/-- Built chunks hold the set whose ranges are pushed. -/
theorem holds_build {set : IndexSet} (pushed : (pushes.foldl pushBack []).reverse = set.ranges)
    (occupied : ∀ range ∈ pushes, range.first < range.second)
    (numbered : (∀ range ∈ pushes, range.size = 1) ∨ (build room pushes).length ≤ room) :
    Holds (build room pushes) set := by
  have start : Built [] [] := ⟨nofun, rfl, nofun⟩
  rw [build, List.length_reverse] at numbered
  have built := start.foldl occupied numbered
  refine ⟨fun chunk among => built.sound chunk (List.mem_reverse.mp among), ?_⟩
  rw [build, rangesOf_reverse, built.listed, pushed]

/-- Indices are pushed as ranges of one index. -/
theorem foldl_singles (ranges : List Range) (indices : List Nat) :
    (singles indices).foldl pushBack ranges =
      indices.foldl (fun built index => pushBack built ⟨index, index + 1⟩) ranges :=
  List.foldl_map

/-- Indices are ranges that are not empty. -/
theorem occupied_of_mem_singles (among : range ∈ singles indices) :
    range.first < range.second := by
  obtain ⟨index, _, rfl⟩ := List.mem_map.mp among
  exact Nat.lt_succ_self index

/-- **Chunks built of indices** hold the set of these. -/
theorem holds_build_singles (room : Nat) (ordered : indices.Pairwise (· < ·)) :
    Holds (build room (singles indices)) (.ofIndexes indices ordered) := by
  apply holds_build
  · rw [foldl_singles]
    rfl
  · exact fun range => occupied_of_mem_singles
  · refine Or.inl fun range among => ?_
    obtain ⟨index, _, rfl⟩ := List.mem_map.mp among
    exact Nat.add_sub_cancel_left index 1

end Build

/-- What is pushed when values that were shifted by ranges are added to old ranges, which shift
them again: indices, and at last the ranges that are left. -/
def addPushes (newShift skipUntil oldShift : Nat) (shifts old : List Range) :
    List Nat → List Range
  | [] => old
  | index :: values =>
      let ((newShift, skipUntil), shifts) := passShifts index newShift skipUntil shifts
      if index < skipUntil then addPushes newShift skipUntil oldShift shifts old values
      else
        let (oldShift, cursor) := Cursor.overtake (index - newShift) oldShift [] old
        singles (indexes cursor.before.reverse) ++
          singles [index - newShift + oldShift] ++
            addPushes newShift skipUntil oldShift shifts cursor.after values

section AddPushes

variable {built ranges shifts old : List Range} {range : Range} {values : List Nat}
  {newShift skipUntil oldShift index shift : Nat}

/-- The indices of a range, one after the other, make the range. -/
theorem foldl_range' (first size : Nat) :
    (List.range' first (size + 1)).foldl (fun built index => pushBack built ⟨index, index + 1⟩)
        built = pushBack built ⟨first, first + (size + 1)⟩ := by
  induction size with
  | zero => rfl
  | succ size ih =>
      rw [List.range'_concat, List.foldl_append, ih, Nat.one_mul]
      cases built with
      | nil => simp [pushBack, Nat.add_assoc]
      | cons last initial =>
          by_cases joined : first = last.second
          · simp [pushBack, joined, Nat.add_assoc]
          · simp [pushBack, joined, Nat.add_assoc]

/-- The indices of ranges, one after the other, make the ranges. -/
theorem foldl_indexes (occupied : ∀ range ∈ ranges, range.first < range.second) :
    (indexes ranges).foldl (fun built index => pushBack built ⟨index, index + 1⟩) built =
      ranges.foldl pushBack built := by
  induction ranges generalizing built with
  | nil => rfl
  | cons range ranges ih =>
      obtain ⟨first, others⟩ := List.forall_mem_cons.mp occupied
      obtain ⟨size, same⟩ : ∃ size, range.size = size + 1 :=
        Nat.exists_eq_add_one_of_ne_zero (Nat.sub_ne_zero_of_lt first)
      have whole : range.first + (size + 1) = range.second := by
        rw [← same, Range.size]
        omega
      rw [indexes, List.flatMap_cons, List.foldl_append, same, foldl_range', whole]
      exact ih others

/-- The ranges that a shifted index passes, and those it does not, are the ranges there are. -/
theorem ranges_overtake (index shift : Nat) (before after : List Range) :
    (Cursor.overtake index shift before after).2.ranges = before.reverseAux after := by
  induction after generalizing before shift with
  | nil => rfl
  | cons range rest ih =>
      rw [Cursor.overtake]
      by_cases passed : range.first ≤ index + shift
      · rw [if_pos passed, ih]
        rfl
      · rw [if_neg passed]
        rfl

/-- The pushes go on with the ranges that an index did not pass, which are old ones. -/
theorem occupied_overtake (occupied : ∀ range ∈ old, range.first < range.second)
    (index shift : Nat) :
    ∀ range ∈ (Cursor.overtake index shift [] old).2.after, range.first < range.second := by
  have around := ranges_overtake index shift [] old
  rw [Cursor.ranges, List.reverseAux_eq, List.reverseAux_nil] at around
  intro range among
  exact occupied range (around ▸ List.mem_append_right _ among)

/-- **The pushes and the indices of the loop** build the same ranges. -/
theorem foldl_addPushes (built : List Range)
    (occupied : ∀ range ∈ old, range.first < range.second) :
    (addPushes newShift skipUntil oldShift shifts old values).foldl pushBack built =
      (addLoop newShift skipUntil oldShift shifts old values).foldl
        (fun built index => pushBack built ⟨index, index + 1⟩) built := by
  induction values generalizing newShift skipUntil oldShift shifts old built with
  | nil => exact (foldl_indexes occupied).symm
  | cons value values ih =>
      rw [addPushes, addLoop]
      generalize passShifts value newShift skipUntil shifts = passed
      obtain ⟨⟨newShift, skipUntil⟩, shifts⟩ := passed
      by_cases skipped : value < skipUntil
      · simp only [if_pos skipped]
        exact ih built occupied
      · simp only [if_neg skipped]
        rw [List.foldl_append, List.foldl_append, foldl_singles, foldl_singles,
          ih _ (occupied_overtake occupied _ _), List.foldl_append, List.foldl_cons,
          List.foldl_cons, List.foldl_nil]

/-- No empty range is pushed. -/
theorem occupied_addPushes (occupied : ∀ range ∈ old, range.first < range.second) :
    ∀ range ∈ addPushes newShift skipUntil oldShift shifts old values,
      range.first < range.second := by
  induction values generalizing newShift skipUntil oldShift shifts old with
  | nil => exact occupied
  | cons value values ih =>
      rw [addPushes]
      generalize passShifts value newShift skipUntil shifts = passed
      obtain ⟨⟨newShift, skipUntil⟩, shifts⟩ := passed
      by_cases skipped : value < skipUntil
      · simp only [if_pos skipped]
        exact ih occupied
      · simp only [if_neg skipped]
        intro range among
        rcases List.mem_append.mp among with pushed | rest
        · rcases List.mem_append.mp pushed with indexed | single
          · exact occupied_of_mem_singles indexed
          · exact occupied_of_mem_singles single
        · exact ih (occupied_overtake occupied _ _) range rest

end AddPushes

/-- The chunks that are built when shifted values are added. -/
def addedChunks (vector shiftedBy values : ChunkedRangeVector) : ChunkedRangeVector :=
  build vector.room (addPushes 0 0 0 (rangesOf shiftedBy) (rangesOf vector) values.asIndexes)

/-- The values of a set are added, moved forward by the indices of another set, which they
were shifted by, and back by the indices there. -/
def addShiftedBy (vector shiftedBy values : ChunkedRangeVector) : ChunkedRangeVector :=
  if values.isEmpty then vector else vector.addedChunks shiftedBy values

/-- The positions of another set are inserted. -/
def insertAll (vector positions : ChunkedRangeVector) : ChunkedRangeVector :=
  if positions.isEmpty then vector
  else if vector.isEmpty then positions
  else build vector.room (singles (insertLoop 0 vector.asIndexes positions.asIndexes))

/-- The indices move back to make room for the positions of another set. -/
def shiftForInsertAll (vector positions : ChunkedRangeVector) : ChunkedRangeVector :=
  match vector.getLast?, positions.head? with
  | some last, some first =>
      if first.begin ≥ last.stop then vector
      else build vector.room (singles (shiftLoop 0 vector.asIndexes positions.asIndexes))
  | _, _ => vector

/-- The positions of another set are erased. -/
def eraseAll (vector positions : ChunkedRangeVector) : ChunkedRangeVector :=
  if vector.isEmpty || positions.isEmpty then vector
  else build vector.room (singles (eraseLoop 0 vector.asIndexes positions.asIndexes))

/-- All indices are replaced by those below a length. -/
def setLength (length : Nat) : ChunkedRangeVector :=
  if length = 0 then [] else (Iterator.pushBack [] ⟨0, length⟩).chunks

def clear : ChunkedRangeVector := []

section Whole

variable {vector shifts positions : ChunkedRangeVector} {set shiftedBy values other : IndexSet}

/-- Adding shifted values, if no chunk is begun that there is no room for. -/
theorem Holds.addShiftedBy {more : ChunkedRangeVector} (holds : Holds vector set)
    (shifting : Holds shifts shiftedBy) (others : Holds more values)
    (fits : (vector.addedChunks shifts more).length ≤ vector.room) :
    Holds (vector.addShiftedBy shifts more) (set.addShiftedBy shiftedBy values) := by
  have occupied : ∀ range ∈ set.ranges, range.first < range.second := fun range among =>
    set.separated.occupied among
  rw [ChunkedRangeVector.addShiftedBy, IndexSet.addShiftedBy, others.isEmpty_eq]
  by_cases none : values.ranges.isEmpty = true
  · rw [if_pos none, if_pos none]
    exact holds
  · rw [if_neg none, if_neg none]
    rw [addedChunks, others.asIndexes_eq, shifting.ranges, holds.ranges] at fits ⊢
    exact holds_build (congrArg List.reverse (foldl_addPushes [] occupied))
      (occupied_addPushes occupied) (Or.inr fits)

/-- Inserting the positions of another set. -/
theorem Holds.insertAll (holds : Holds vector set) (others : Holds positions other) :
    Holds (vector.insertAll positions) (set.insertAll other) := by
  rw [ChunkedRangeVector.insertAll, IndexSet.insertAll, others.isEmpty_eq, holds.isEmpty_eq,
    holds.asIndexes_eq, others.asIndexes_eq]
  split
  · exact holds
  · split
    · exact others
    · exact holds_build_singles _ _

/-- The last chunk ends where the last range does. -/
theorem Holds.getLast? (holds : Holds vector set) :
    vector.getLast?.map Chunk.stop = set.ranges.getLast?.map Range.second := by
  rw [← holds.ranges]
  rcases List.eq_nil_or_concat' vector with rfl | ⟨initial, last, rfl⟩
  · rfl
  · have occupied := (holds.sound last (List.mem_append_right _ List.mem_cons_self)).occupied
    obtain ⟨range, ends⟩ := Option.ne_none_iff_exists'.mp (mt List.getLast?_eq_none_iff.mp occupied)
    rw [List.getLast?_concat, rangesOf_append, rangesOf_cons, rangesOf_nil, List.append_nil,
      List.getLast?_append_of_ne_nil _ occupied, Option.map_some, Chunk.stop, ends]
    rfl

/-- The first chunk begins where the first range does. -/
theorem Holds.head? (holds : Holds vector set) :
    vector.head?.map Chunk.begin = set.ranges.head?.map Range.first := by
  rw [← holds.ranges]
  cases vector with
  | nil => rfl
  | cons first later =>
      have occupied := (holds.sound first List.mem_cons_self).occupied
      obtain ⟨range, rest, split⟩ := List.exists_cons_of_ne_nil occupied
      rw [rangesOf_cons, List.head?_cons, Option.map_some, Chunk.begin, split]
      rfl

/-- Making room for the positions of another set. -/
theorem Holds.shiftForInsertAll (holds : Holds vector set) (others : Holds positions other) :
    Holds (vector.shiftForInsertAll positions) (set.shiftForInsertAll other) := by
  have ends := holds.getLast?
  have begins := others.head?
  rw [ChunkedRangeVector.shiftForInsertAll, IndexSet.shiftForInsertAll, holds.asIndexes_eq,
    others.asIndexes_eq]
  cases lastRange : set.ranges.getLast? with
  | none =>
      rw [lastRange, Option.map_none, Option.map_eq_none_iff] at ends
      rw [ends]
      exact holds
  | some range =>
      obtain ⟨last, found, stop⟩ := Option.map_eq_some_iff.mp (ends.trans (by rw [lastRange]; rfl))
      cases firstRange : other.ranges.head? with
      | none =>
          rw [firstRange, Option.map_none, Option.map_eq_none_iff] at begins
          rw [found, begins]
          exact holds
      | some next =>
          obtain ⟨first, entered, begin⟩ :=
            Option.map_eq_some_iff.mp (begins.trans (by rw [firstRange]; rfl))
          rw [found, entered]
          simp only [stop, begin]
          split
          · exact holds
          · exact holds_build_singles _ _

/-- Erasing the positions of another set. -/
theorem Holds.eraseAll (holds : Holds vector set) (others : Holds positions other) :
    Holds (vector.eraseAll positions) (set.eraseAll other) := by
  rw [ChunkedRangeVector.eraseAll, IndexSet.eraseAll, others.isEmpty_eq, holds.isEmpty_eq,
    holds.asIndexes_eq, others.asIndexes_eq]
  split
  · exact holds
  · exact holds_build_singles _ _

/-- The set of a length. -/
theorem holds_setLength (length : Nat) : Holds (setLength length) (.setLength length) := by
  by_cases none : length = 0
  · subst none
    exact ⟨nofun, rfl⟩
  · have stands := stands_pushBack sound_nil ⟨0, length⟩
    have listed := stands.toSound.rangesOf_chunks
    rw [setLength, if_neg none]
    refine ⟨stands.toSound.chunks, listed.trans ?_⟩
    change _ = if length = 0 then [] else [(⟨0, length⟩ : Range)]
    rw [stands.place, if_neg none]
    rfl

end Whole

end ChunkedRangeVector

/-! ## Runs of operations -/

/-- A set in sound chunks. -/
structure ChunkedSet where
  vector : ChunkedRangeVector
  sound : ∀ chunk ∈ vector, chunk.Sound
  separated : Separated 0 (rangesOf vector)

namespace ChunkedSet

/-- The ranges of a set, without their chunks. -/
def toIndexSet (set : ChunkedSet) : IndexSet := ⟨rangesOf set.vector, set.separated⟩

/-- The indices of a set. -/
def toFinset (set : ChunkedSet) : Finset Nat := set.toIndexSet.toFinset

/-- The chunks of a set hold its ranges. -/
theorem holds (set : ChunkedSet) : set.vector.Holds set.toIndexSet := ⟨set.sound, rfl⟩

end ChunkedSet

namespace ChunkedRangeVector

open IndexSet (Operation Reply meaning meaningAll)

/-- The answer of an operation, and the chunks after it. -/
def perform (vector : ChunkedRangeVector) : Operation ChunkedSet → Reply × ChunkedRangeVector
  | .add index => (.done, vector.add index)
  | .addSet other => (.done, vector.addSet other.vector)
  | .addShifted index => (.number (vector.addShifted index).1, (vector.addShifted index).2)
  | .addShiftedBy shiftedBy values => (.done, vector.addShiftedBy shiftedBy.vector values.vector)
  | .setLength length => (.done, setLength length)
  | .clear => (.done, clear)
  | .insertAt index number => (.done, vector.insertAt index number)
  | .insertAll positions => (.done, vector.insertAll positions.vector)
  | .shiftForInsertAt index number _ => (.done, vector.shiftForInsertAt index number)
  | .shiftForInsertAll positions => (.done, vector.shiftForInsertAll positions.vector)
  | .eraseAt index => (.done, vector.eraseAt index)
  | .eraseAll positions => (.done, vector.eraseAll positions.vector)
  | .eraseOrUnshift index =>
      ((vector.eraseOrUnshift index).1.elim .npos .number, (vector.eraseOrUnshift index).2)
  | .remove index => (.done, vector.remove index)
  | .removeSet other => (.done, vector.removeSet other.vector)
  | .contains index => (.contained (vector.contains index), vector)
  | .count start stop => (.number (vector.count start stop).toNat, vector)
  | .shift index => (.number (vector.shift index), vector)
  | .unshift index => (.number (vector.unshift index).toNat, vector)

/-- An operation that the chunks are no obstacle for: counting leaves nothing out, and adding
shifted values begins no chunk that there is no room for. -/
def Allows (vector : ChunkedRangeVector) : Operation ChunkedSet → Prop
  | .count start stop => vector.lost start stop = 0
  | .addShiftedBy shiftedBy values =>
      (vector.addedChunks shiftedBy.vector values.vector).length ≤ vector.room
  | _ => True

/-- The answers of operations made one after the other, and the chunks after them. -/
def performAll (vector : ChunkedRangeVector) :
    List (Operation ChunkedSet) → List Reply × ChunkedRangeVector
  | [] => ([], vector)
  | operation :: operations =>
      let rest := (vector.perform operation).2.performAll operations
      ((vector.perform operation).1 :: rest.1, rest.2)

/-- Operations that the chunks are no obstacle for, each where it is made. -/
def AllowsAll (vector : ChunkedRangeVector) : List (Operation ChunkedSet) → Prop
  | [] => True
  | operation :: operations =>
      vector.Allows operation ∧ (vector.perform operation).2.AllowsAll operations

/-- **An operation on chunks** answers as it does on the set whose ranges they hold, and leaves
chunks that hold the ranges after it. -/
theorem Holds.perform {vector : ChunkedRangeVector} {set : IndexSet} (holds : Holds vector set)
    (operation : Operation ChunkedSet) (allowed : vector.Allows operation) :
    (vector.perform operation).1 = (set.perform (operation.map ChunkedSet.toIndexSet)).1 ∧
      Holds (vector.perform operation).2
        (set.perform (operation.map ChunkedSet.toIndexSet)).2 := by
  cases operation with
  | add index => exact ⟨rfl, holds.add index⟩
  | addSet other => exact ⟨rfl, holds.addSet other.holds⟩
  | addShifted index =>
      obtain ⟨answer, after⟩ := holds.addShifted index
      exact ⟨congrArg Reply.number answer, after⟩
  | addShiftedBy shiftedBy values =>
      exact ⟨rfl, holds.addShiftedBy shiftedBy.holds values.holds allowed⟩
  | setLength length => exact ⟨rfl, holds_setLength length⟩
  | clear => exact ⟨rfl, nofun, rfl⟩
  | insertAt index number => exact ⟨rfl, holds.insertAt index number⟩
  | insertAll positions => exact ⟨rfl, holds.insertAll positions.holds⟩
  | shiftForInsertAt index number positive =>
      exact ⟨rfl, holds.shiftForInsertAt index number positive⟩
  | shiftForInsertAll positions => exact ⟨rfl, holds.shiftForInsertAll positions.holds⟩
  | eraseAt index => exact ⟨rfl, holds.eraseAt index⟩
  | eraseAll positions => exact ⟨rfl, holds.eraseAll positions.holds⟩
  | eraseOrUnshift index =>
      obtain ⟨answer, after⟩ := holds.eraseOrUnshift index
      refine ⟨?_, after⟩
      rw [ChunkedRangeVector.perform, answer]
      rfl
  | remove index => exact ⟨rfl, holds.remove index⟩
  | removeSet other => exact ⟨rfl, holds.removeSet other.holds⟩
  | contains index => exact ⟨congrArg Reply.contained (holds.contains index), holds⟩
  | count start stop =>
      have counted := holds.count_add_lost start stop
      have none : vector.lost start stop = 0 := allowed
      rw [none] at counted
      refine ⟨congrArg Reply.number ?_, holds⟩
      omega
  | shift index => exact ⟨congrArg Reply.number (holds.shift index), holds⟩
  | unshift index => exact ⟨congrArg Reply.number (holds.unshift index), holds⟩

/-- Seeing the other sets as ranges, and then as indices, is seeing them as indices. -/
theorem map_toFinset (operation : Operation ChunkedSet) :
    (operation.map ChunkedSet.toIndexSet).map IndexSet.toFinset =
      operation.map ChunkedSet.toFinset := by
  cases operation <;> rfl

/-- The chunks before and after operations hold ranges, and the answers and indices are what the
operations mean; the induction is on the operations. -/
theorem Holds.performAll {vector : ChunkedRangeVector} {set : IndexSet} (holds : Holds vector set)
    (operations : List (Operation ChunkedSet)) (allowed : vector.AllowsAll operations) :
    (vector.performAll operations).1 =
        (meaningAll set.toFinset (operations.map (.map ChunkedSet.toFinset))).1 ∧
      ∃ after : IndexSet, Holds (vector.performAll operations).2 after ∧ after.toFinset =
        (meaningAll set.toFinset (operations.map (.map ChunkedSet.toFinset))).2 := by
  induction operations generalizing vector set with
  | nil => exact ⟨rfl, set, holds, rfl⟩
  | cons operation operations ih =>
      obtain ⟨now, later⟩ := allowed
      obtain ⟨same, held⟩ := holds.perform operation now
      obtain ⟨answer, indices⟩ :=
        Prod.mk.inj (set.perform_refines (operation.map ChunkedSet.toIndexSet))
      rw [map_toFinset] at answer indices
      obtain ⟨answers, after, holding, reached⟩ := ih held later
      rw [indices] at answers reached
      rw [ChunkedRangeVector.performAll, List.map_cons, meaningAll]
      exact ⟨congrArg₂ List.cons (same.trans answer) answers, after, holding, reached⟩

end ChunkedRangeVector

namespace ChunkedSet

open IndexSet (Operation Reply meaningAll)

/-- **Sets in chunks refine sets of indices.** Whatever is done with a set that its chunks are no
obstacle for, its answers are those of the indices; the chunks at the end are sound, and their
ranges depend on the indices alone. -/
theorem performAll_refines (set : ChunkedSet) (operations : List (Operation ChunkedSet))
    (allowed : set.vector.AllowsAll operations) :
    (set.vector.performAll operations).1 =
        (meaningAll set.toFinset (operations.map (.map toFinset))).1 ∧
      ∃ after : ChunkedSet, after.vector = (set.vector.performAll operations).2 ∧
        after.toFinset = (meaningAll set.toFinset (operations.map (.map toFinset))).2 ∧
        ∀ other : IndexSet, other.toFinset = after.toFinset →
          rangesOf after.vector = other.ranges := by
  obtain ⟨answers, after, holds, reached⟩ := set.holds.performAll operations allowed
  have separated : Separated 0 (rangesOf (set.vector.performAll operations).2) :=
    holds.ranges ▸ after.separated
  have same : (⟨_, separated⟩ : IndexSet) = after := IndexSet.ext holds.ranges
  refine ⟨answers, ⟨_, holds.sound, separated⟩, rfl, ?_, fun other equal => ?_⟩
  · exact (congrArg IndexSet.toFinset same).trans reached
  · exact congrArg IndexSet.ranges (IndexSet.ext_toFinset equal.symm)

/-- The indices 0, 1, 3, 4, 6, 7 and 10, in two chunks. -/
def twoChunks : ChunkedSet where
  vector := [⟨[⟨0, 2⟩, ⟨3, 5⟩], 4⟩, ⟨[⟨6, 8⟩, ⟨10, 11⟩], 3⟩]
  sound := by
    simp only [List.forall_mem_cons]
    exact ⟨⟨by decide, by decide, by decide⟩, ⟨by decide, by decide, by decide⟩, nofun⟩
  separated := by simp [rangesOf, Separated]

/-- The indices 1 and 4. -/
def pair : ChunkedSet where
  vector := [⟨[⟨1, 2⟩, ⟨4, 5⟩], 2⟩]
  sound := List.forall_mem_singleton.mpr ⟨by decide, by decide, by decide⟩
  separated := by simp [rangesOf, Separated]

/-- Indices are counted, shifted, added, inserted and erased in both chunks. -/
def edits : List (Operation ChunkedSet) :=
  [.count 1 5, .addShifted 2, .insertAt 2 1, .addShiftedBy pair twoChunks, .eraseOrUnshift 9,
    .removeSet pair, .unshift 9, .contains 10]

/-- What is done with both chunks is answered as the indices have it. -/
theorem performAll_refines_edits :
    (meaningAll twoChunks.toFinset (edits.map (.map toFinset))).1 =
      [.number 3, .number 8, .done, .done, .npos, .done, .number 3, .contained true] := by
  have allowed : twoChunks.vector.AllowsAll edits := by
    refine ⟨?_, trivial, trivial, ?_, trivial, trivial, trivial, trivial, trivial⟩
    · change ChunkedRangeVector.lost _ _ _ = 0
      decide
    · change List.length _ ≤ ChunkedRangeVector.room _
      decide
  rw [← (performAll_refines twoChunks edits allowed).1]
  decide

end ChunkedSet

end EventTalks.Realm

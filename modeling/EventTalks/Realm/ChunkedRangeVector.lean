import EventTalks.Realm.ChunkEdits
import EventTalks.Realm.IndexSet

/-! # Ranges in chunks

What an index set answers, and what it does at one index, on the chunks that hold its ranges.
Each operation answers as on the ranges alone, and leaves chunks that hold the ranges after it
(`EventTalks.Realm.ChunkedRangeVector.Holds`). Only counting from an index on may leave out the
first range of a chunk (`EventTalks.Realm.ChunkedRangeVector.Holds.count_add_lost`).
-/

namespace EventTalks.Realm

/-- Ranges in chunks. -/
abbrev ChunkedRangeVector := List Chunk

namespace ChunkedRangeVector

/-- The iterator at the first range. -/
def begin (vector : ChunkedRangeVector) : Iterator := .enter [] vector

/-- The iterator at the range that contains an index, or at the first one after it. -/
def find (vector : ChunkedRangeVector) (index : Nat) : Iterator := vector.begin.find index

/-- The indices, in order. -/
def asIndexes (vector : ChunkedRangeVector) : List Nat := indexes (rangesOf vector)

/-- The chunks hold the ranges of a set, and are sound. -/
structure Holds (vector : ChunkedRangeVector) (set : IndexSet) : Prop where
  sound : ∀ chunk ∈ vector, chunk.Sound
  ranges : rangesOf vector = set.ranges

section Places

variable {vector : ChunkedRangeVector} {set : IndexSet} {it : Iterator} {cursor : Cursor}

/-- The first place is that of the set. -/
theorem Holds.stands_begin (holds : Holds vector set) : Stands vector.begin set.begin := by
  have stands := stands_enter sound_nil holds.sound
  rwa [holds.ranges] at stands

/-- The place that is found is that of the set. -/
theorem Holds.stands_find (holds : Holds vector set) (index : Nat) :
    Stands (vector.find index) (set.find index) :=
  holds.stands_begin.find (Nat.zero_le _) (endsBelow_nil 0) set.separated

/-- The chunks of an iterator hold the ranges around its place. -/
theorem holds_ofCursor (stands : Stands it cursor) (sound : cursor.Sound) :
    Holds it.chunks (.ofCursor cursor sound) := by
  refine ⟨stands.toSound.chunks, ?_⟩
  rw [stands.toSound.rangesOf_chunks, stands.place]
  rfl

/-- The chunks list the indices of the set. -/
theorem Holds.asIndexes_eq (holds : Holds vector set) : vector.asIndexes = set.asIndexes := by
  rw [asIndexes, holds.ranges, IndexSet.asIndexes]

/-- There are no chunks when the set has no ranges. -/
theorem Holds.isEmpty_eq (holds : Holds vector set) : vector.isEmpty = set.ranges.isEmpty := by
  rw [← holds.ranges]
  cases vector with
  | nil => rfl
  | cons chunk chunks =>
      have occupied := (holds.sound chunk List.mem_cons_self).occupied
      simp [occupied]

end Places

/-! ## Looking up and counting -/

def contains (vector : ChunkedRangeVector) (index : Nat) : Bool :=
  (vector.find index).toCursor.contains index

/-- Whole chunks that end at an end or below are counted by their numbers, and the next one by
its ranges. -/
def countChunks (stop : Nat) : List Chunk → Int
  | [] => 0
  | chunk :: later =>
      if chunk.stop ≤ stop then chunk.count + countChunks stop later
      else IndexSet.countRest stop chunk.data

/-- The rest of a chunk is counted by its ranges; the next chunk is not looked at when its first
range reaches the end. -/
def countHere (stop : Nat) (later : List Chunk) : List Range → Int
  | [] =>
      match rangesOf later with
      | [] => 0
      | next :: _ => if stop ≤ next.second then 0 else countChunks stop later
  | range :: rest =>
      if range.second < stop then range.size + countHere stop later rest
      else if range.first < stop then stop - range.first
      else 0

/-- The number of indices from a start on and below an end. -/
def count (vector : ChunkedRangeVector) (start stop : Nat) : Int :=
  let it := vector.find start
  match it.rest with
  | [] => 0
  | range :: rest =>
      if stop ≤ range.first then 0
      else if stop ≤ range.second then (min range.second stop - max range.first start : Nat)
      else if range.first < start ∨ it.passed ≠ [] then
        (range.second - max range.first start : Nat) + countHere stop it.later rest
      else countChunks stop it.fromHere

/-- How many indices the first range of some chunks has below an end that it reaches. -/
def reached (stop : Nat) (later : List Chunk) : Nat :=
  match rangesOf later with
  | [] => 0
  | next :: _ => if stop ≤ next.second then stop - next.first else 0

/-- How many indices are left out when those between a start and an end are counted: if counting
begins within a chunk that ends before the end, and the end is in the first range of the next
chunk, those of this range. -/
def lost (vector : ChunkedRangeVector) (start stop : Nat) : Nat :=
  let it := vector.find start
  match it.rest with
  | [] => 0
  | range :: rest =>
      if (range.first < start ∨ it.passed ≠ []) ∧ ∀ other ∈ range :: rest, other.second < stop then
        reached stop it.later
      else 0

section Count

variable {vector : ChunkedRangeVector} {set : IndexSet} {later : List Chunk}
  {data rest after : List Range} {bound start stop index : Nat}

/-- The chunks contain the indices of the set. -/
theorem Holds.contains (holds : Holds vector set) (index : Nat) :
    vector.contains index = set.contains index := by
  rw [ChunkedRangeVector.contains, (holds.stands_find index).place, IndexSet.contains]

/-- Ranges from the end on are not counted. -/
theorem countRest_eq_zero (separated : Separated bound data) (beyond : stop ≤ bound) :
    IndexSet.countRest stop data = 0 := by
  cases data with
  | nil => rfl
  | cons range data =>
      obtain ⟨below, occupied, _⟩ := separated
      rw [IndexSet.countRest, if_neg (by omega), if_neg (by omega)]

/-- Ranges that end at the end or below are counted whole. -/
theorem countRest_append (ended : ∀ range ∈ data, range.second ≤ stop) :
    (IndexSet.countRest stop (data ++ after) : Int) =
      sizes data + IndexSet.countRest stop after := by
  induction data with
  | nil => simp
  | cons range data ih =>
      obtain ⟨first, others⟩ := List.forall_mem_cons.mp ended
      have counted := ih others
      rw [List.cons_append, IndexSet.countRest, if_pos first, sizes_cons]
      omega

/-- Ranges after one that ends above the end are not counted. -/
theorem countRest_append_of_exists (above : ∃ range ∈ data, stop < range.second) :
    IndexSet.countRest stop (data ++ after) = IndexSet.countRest stop data := by
  induction data with
  | nil => simp at above
  | cons range data ih =>
      rw [List.cons_append, IndexSet.countRest, IndexSet.countRest]
      by_cases ended : range.second ≤ stop
      · obtain ⟨other, among, beyond⟩ := above
        rw [if_pos ended, if_pos ended, ih]
        rcases List.mem_cons.mp among with rfl | member
        · omega
        · exact ⟨other, member, beyond⟩
      · rw [if_neg ended, if_neg ended]

/-- **Counting by chunks** counts the ranges that they hold. -/
theorem countChunks_eq (stop : Nat) (sound : ∀ chunk ∈ later, chunk.Sound)
    (separated : Separated bound (rangesOf later)) :
    countChunks stop later = IndexSet.countRest stop (rangesOf later) := by
  induction later generalizing bound with
  | nil => rfl
  | cons chunk later ih =>
      obtain ⟨first, others⟩ := List.forall_mem_cons.mp sound
      rw [countChunks, rangesOf_cons]
      by_cases ended : chunk.stop ≤ stop
      · rw [if_pos ended, countRest_append (Chunk.second_le_of_stop_le separated.left ended),
          ih others separated.right, first.counted]
      · rw [if_neg ended,
          countRest_append_of_exists (Chunk.exists_of_lt_stop (Nat.lt_of_not_le ended))]

/-- The rest of a chunk is counted, and what is left out if all of it is; the induction is on
its ranges. -/
theorem countHere_add_reached (stop : Nat) (sound : ∀ chunk ∈ later, chunk.Sound)
    (separated : Separated bound (rest ++ rangesOf later)) :
    countHere stop later rest +
        (if ∀ range ∈ rest, range.second < stop then reached stop later else 0 : Nat) =
      IndexSet.countRest stop (rest ++ rangesOf later) := by
  induction rest generalizing bound with
  | nil =>
      rw [List.nil_append] at separated ⊢
      rw [if_pos nofun, countHere, reached]
      cases next : rangesOf later with
      | nil => rfl
      | cons range after =>
          rw [next] at separated
          by_cases inside : stop ≤ range.second
          · simp only [if_pos inside, IndexSet.countRest]
            have none := countRest_eq_zero separated.2.2 (Nat.le_succ_of_le inside)
            rw [none, Range.size]
            split
            · omega
            · split <;> omega
          · rw [← next] at separated
            have counted := countChunks_eq stop sound separated
            rw [next] at counted
            simp only [if_neg inside]
            omega
  | cons range rest ih =>
      obtain ⟨below, occupied, apart⟩ := separated
      rw [countHere, List.cons_append, IndexSet.countRest]
      simp only [List.forall_mem_cons]
      by_cases ended : range.second < stop
      · have counted := ih apart
        simp only [ended, true_and, if_true, ended.le]
        omega
      · simp only [ended, false_and, if_false]
        by_cases last : range.second ≤ stop
        · have none : IndexSet.countRest stop (rest ++ rangesOf later) = 0 :=
            countRest_eq_zero apart (by omega)
          rw [if_pos last, none, Range.size]
          split <;> omega
        · rw [if_neg last]
          split <;> omega

/-- **Counting** counts the indices of the set, less those that are left out. -/
theorem Holds.count_add_lost (holds : Holds vector set) (start stop : Nat) :
    vector.count start stop + vector.lost start stop = set.count start stop := by
  have stands := holds.stands_find start
  obtain ⟨⟨bound, _, _, separated⟩, above⟩ := set.at_find start
  rw [count, lost, IndexSet.count]
  generalize vector.find start = it at stands ⊢
  generalize set.find start = cursor at stands separated above ⊢
  obtain ⟨before, after⟩ := cursor
  cases after with
  | nil =>
      obtain ⟨earlier, number, rfl, rfl⟩ := stands.at_end
      rfl
  | cons range after =>
      obtain ⟨earlier, passed, rest, number, later, rfl, rfl, rfl⟩ := stands.at_range
      obtain ⟨below, occupied, apart⟩ := separated
      have others : ∀ chunk ∈ later, chunk.Sound := stands.later
      simp only [List.forall_mem_cons]
      by_cases outside : stop ≤ range.first
      · have ended : ¬ range.second < stop := by omega
        simp [outside, ended]
      · by_cases inside : stop ≤ range.second
        · have ended : ¬ range.second < stop := by omega
          simp [outside, inside, ended]
        · have ended : range.second < stop := by omega
          simp only [if_neg outside, if_neg inside, ended, true_and]
          by_cases within : range.first < start ∨ passed ≠ []
          · have counted := countHere_add_reached stop others apart
            simp only [within, true_and, if_true]
            omega
          · rw [not_or, not_not] at within
            obtain ⟨begun, rfl⟩ := within
            have whole : Separated bound (rangesOf (⟨range :: rest, number⟩ :: later)) :=
              ⟨below, occupied, apart⟩
            have here : Chunk.Sound ⟨range :: rest, number⟩ := stands.here_eq
            have counted := countChunks_eq stop
              (List.forall_mem_cons.mpr ⟨here, others⟩) whole
            rw [rangesOf_cons, List.cons_append, IndexSet.countRest, if_pos ended.le] at counted
            have least : max range.first start = range.first := by omega
            have first : ¬ (range.first < start ∨ ([] : List Range) ≠ []) := by simpa using begun
            rw [if_neg first, if_neg fun lost => first lost.1, least]
            change countChunks stop (⟨range :: rest, number⟩ :: later) + _ = _
            rw [counted, Range.size]
            omega

/-- The index 6 is left out: the second chunk begins with it, and its first range goes on. -/
example : count [⟨[⟨0, 2⟩, ⟨3, 5⟩], 4⟩, ⟨[⟨6, 8⟩], 2⟩] 1 7 = 3 ∧
    lost [⟨[⟨0, 2⟩, ⟨3, 5⟩], 4⟩, ⟨[⟨6, 8⟩], 2⟩] 1 7 = 1 := by
  decide

/-- No range of a set is before the first index. -/
theorem find_zero (set : IndexSet) : set.find 0 = set.begin := by
  obtain ⟨ranges, separated⟩ := set
  cases ranges with
  | nil => rfl
  | cons range ranges =>
      have occupied := separated.2.1
      rw [IndexSet.find, IndexSet.begin, Cursor.find, Cursor.seek, if_neg (by omega)]

/-- From the first index on, nothing is left out. -/
theorem Holds.lost_zero (holds : Holds vector set) (stop : Nat) : vector.lost 0 stop = 0 := by
  have stands := holds.stands_find 0
  rw [find_zero] at stands
  rw [lost]
  generalize vector.find 0 = it at stands ⊢
  obtain ⟨earlier, passed, rest, number, later⟩ := it
  obtain ⟨none, _⟩ := List.append_eq_nil_iff.mp (congrArg Cursor.before stands.place)
  obtain rfl : passed = [] := none
  cases rest with
  | nil => rfl
  | cons range rest =>
      apply if_neg
      simp

end Count

/-- To shift an index goes range by range. -/
def shift (vector : ChunkedRangeVector) (index : Nat) : Nat :=
  index + (Cursor.overtake index 0 [] (rangesOf vector)).1

def unshift (vector : ChunkedRangeVector) (index : Nat) : Int := index - vector.count 0 index

/-- Passes the ranges that begin at a shifted index or below, and shifts it by their indices. -/
def passRanges (index : Int) (it : Iterator) : List Range → Int × Iterator
  | [] => (index, it)
  | range :: rest =>
      if range.first ≤ index then passRanges (index + range.size) it.next rest else (index, it)

/-- Passes the chunks that end at a shifted index or below by their numbers, and then ranges. -/
def passShift (index : Int) (earlier : List Chunk) : List Chunk → Int × Iterator
  | [] => (index, .enter earlier [])
  | chunk :: later =>
      if chunk.stop ≤ index then passShift (index + chunk.count) (chunk :: earlier) later
      else passRanges index (.enter earlier (chunk :: later)) (rangesOf (chunk :: later))

/-- Passes the chunks that end at an index or below by their numbers, and in the next one the
ranges that do; a number is made smaller by the indices passed. -/
def passUnshift (index : Nat) (shifted : Int) (earlier : List Chunk) :
    List Chunk → Int × Iterator
  | [] => (shifted, .enter earlier [])
  | chunk :: later =>
      if chunk.stop ≤ index then passUnshift index (shifted - chunk.count) (chunk :: earlier) later
      else
        let place := Cursor.seek index [] chunk.data
        (shifted - sizes place.before, ⟨earlier, place.before, place.after, chunk.count, later⟩)

section Pass

variable {vector : ChunkedRangeVector} {set : IndexSet} {it : Iterator}
  {earlier later : List Chunk} {before data after : List Range} {bound index : Nat}

/-- To shift an index passes the ranges of the set. -/
theorem Holds.shift (holds : Holds vector set) (index : Nat) :
    vector.shift index = set.shift index := by
  rw [ChunkedRangeVector.shift, holds.ranges, IndexSet.shift]

/-- To unshift an index counts from the first one on, where nothing is left out. -/
theorem Holds.unshift (holds : Holds vector set) (index : Nat) :
    (vector.unshift index).toNat = set.unshift index := by
  have counted := holds.count_add_lost 0 index
  rw [holds.lost_zero] at counted
  rw [ChunkedRangeVector.unshift, IndexSet.unshift]
  omega

/-- Ranges that a shifted index passes shift it on by their sizes. -/
theorem stands_passRanges (stands : Stands it ⟨before, after⟩) (index shift : Nat) :
    (passRanges (index + shift) it after).1 =
        index + (Cursor.overtake index shift before after).1 ∧
      Stands (passRanges (index + shift) it after).2
        (Cursor.overtake index shift before after).2 := by
  induction after generalizing it before shift with
  | nil => exact ⟨rfl, stands⟩
  | cons range after ih =>
      have passes : (range.first : Int) ≤ index + shift ↔ range.first ≤ index + shift := by omega
      rw [ChunkedRangeVector.passRanges, Cursor.overtake]
      by_cases passed : range.first ≤ index + shift
      · rw [if_pos (passes.mpr passed), if_pos passed, Int.add_assoc]
        exact ih stands.next (shift + range.size)
      · rw [if_neg (mt passes.mp passed), if_neg passed]
        exact ⟨rfl, stands⟩

/-- Ranges that end at a shifted index or below are passed. -/
theorem overtake_append_of_le {shift : Nat} (before after : List Range)
    (separated : Separated bound data)
    (ended : ∀ range ∈ data, range.second ≤ index + shift) :
    Cursor.overtake index shift before (data ++ after) =
      Cursor.overtake index (shift + (data.map Range.size).sum) (data.reverse ++ before) after := by
  induction data generalizing bound shift before with
  | nil => rfl
  | cons range data ih =>
      obtain ⟨first, others⟩ := List.forall_mem_cons.mp ended
      obtain ⟨below, occupied, apart⟩ := separated
      have later : ∀ other ∈ data, other.second ≤ index + (shift + range.size) := fun other among =>
        (others other among).trans (by omega)
      rw [List.cons_append, Cursor.overtake, if_pos (occupied.le.trans first), ih _ apart later,
        List.map_cons, List.sum_cons, Nat.add_assoc, List.reverse_cons, List.append_assoc,
        List.singleton_append]

/-- **Chunks that a shifted index passes** shift it on by their numbers. -/
theorem stands_passShift (initial : ∀ chunk ∈ earlier, chunk.Sound)
    (others : ∀ chunk ∈ later, chunk.Sound) (separated : Separated bound (rangesOf later))
    (index shift : Nat) :
    (passShift (index + shift) earlier later).1 =
        index + (Cursor.overtake index shift (passedOf earlier) (rangesOf later)).1 ∧
      Stands (passShift (index + shift) earlier later).2
        (Cursor.overtake index shift (passedOf earlier) (rangesOf later)).2 := by
  induction later generalizing earlier bound shift with
  | nil => exact ⟨rfl, stands_enter initial others⟩
  | cons chunk later ih =>
      obtain ⟨sound, remaining⟩ := List.forall_mem_cons.mp others
      have passes : (chunk.stop : Int) ≤ index + shift ↔ chunk.stop ≤ index + shift := by omega
      rw [passShift]
      by_cases ended : chunk.stop ≤ index + shift
      · have passed := overtake_append_of_le (passedOf earlier) (rangesOf later) separated.left
          (Chunk.second_le_of_stop_le separated.left ended)
        rw [if_pos (passes.mpr ended), rangesOf_cons, passed, sound.counted, Int.add_assoc]
        exact ih (List.forall_mem_cons.mpr ⟨sound, initial⟩) remaining separated.right
          (shift + (chunk.data.map Range.size).sum)
      · rw [if_neg (mt passes.mp ended)]
        exact stands_passRanges (stands_enter initial others) index shift

/-- **Chunks before an index** are taken off by their numbers. -/
theorem stands_passUnshift (index : Nat) (shifted : Int) (initial : ∀ chunk ∈ earlier, chunk.Sound)
    (others : ∀ chunk ∈ later, chunk.Sound) (separated : Separated bound (rangesOf later)) :
    (passUnshift index shifted earlier later).1 +
          sizes (Cursor.seek index (passedOf earlier) (rangesOf later)).before =
        shifted + sizes (passedOf earlier) ∧
      Stands (passUnshift index shifted earlier later).2
        (Cursor.seek index (passedOf earlier) (rangesOf later)) := by
  induction later generalizing earlier bound shifted with
  | nil => exact ⟨rfl, stands_enter initial others⟩
  | cons chunk later ih =>
      obtain ⟨sound, remaining⟩ := List.forall_mem_cons.mp others
      rw [passUnshift]
      by_cases ended : chunk.stop ≤ index
      · rw [if_pos ended, rangesOf_cons,
          Cursor.seek_append_of_le (Chunk.second_le_of_stop_le separated.left ended)]
        obtain ⟨total, stands⟩ := ih (shifted - chunk.count)
          (List.forall_mem_cons.mpr ⟨sound, initial⟩) remaining separated.right
        refine ⟨?_, stands⟩
        rw [passedOf_cons, sizes_append, sizes_reverse, sound.counted] at total
        rw [sound.counted]
        omega
      · rw [if_neg ended]
        have above := Chunk.exists_of_lt_stop (Nat.lt_of_not_le ended)
        have stands := stands_seek [] initial sound remaining above
        obtain ⟨place, _⟩ := Cursor.seek_append [] (passedOf earlier) (rangesOf later) above
        refine ⟨?_, stands⟩
        rw [rangesOf_cons, ← List.nil_append (passedOf earlier), place, sizes_append]
        simp only [List.nil_append]
        omega

end Pass

/-! ## Adding and removing -/

def add (vector : ChunkedRangeVector) (index : Nat) : ChunkedRangeVector :=
  ((vector.find index).doAdd index).chunks

/-- An index shifted by the set is added; the shifted index is returned. -/
def addShifted (vector : ChunkedRangeVector) (index : Nat) : Nat × ChunkedRangeVector :=
  let passed := passShift index [] vector
  (passed.1.toNat, (passed.2.doAdd passed.1.toNat).chunks)

/-- The indices of a set added one after the other, each looked for from the last one on. -/
def addAll (it : Iterator) (indices : List Nat) : Iterator :=
  indices.foldl (fun it index => (it.find index).doAdd index) it

/-- The indices of another set are added. -/
def addSet (vector other : ChunkedRangeVector) : ChunkedRangeVector :=
  (addAll vector.begin other.asIndexes).chunks

def remove (vector : ChunkedRangeVector) (index : Nat) : ChunkedRangeVector :=
  ((vector.find index).doRemove index (index + 1)).chunks

/-- The ranges are removed one after the other, each looked for from the last one on. -/
def removeAll (it : Iterator) : List Range → Iterator
  | [] => it
  | range :: rest =>
      let it := it.doRemove range.first range.second
      if it.toCursor.after.isEmpty then it else removeAll it rest

/-- The indices of another set are removed. -/
def removeSet (vector other : ChunkedRangeVector) : ChunkedRangeVector :=
  (removeAll vector.begin (rangesOf other)).chunks

/-- Indices are inserted: those from an index on move back by their number. -/
def insertAt (vector : ChunkedRangeVector) (index count : Nat) : ChunkedRangeVector :=
  ((vector.find index).insertAt index count).chunks

/-- The indices from an index on move back by a number. -/
def shiftForInsertAt (vector : ChunkedRangeVector) (index count : Nat) : ChunkedRangeVector :=
  ((vector.find index).shiftForInsertAt index count).chunks

/-- An index is removed, and those after it move forward. -/
def eraseAt (vector : ChunkedRangeVector) (index : Nat) : ChunkedRangeVector :=
  ((vector.find index).doErase index).chunks

/-- An index is removed; if the set did not contain it, the index moved forward by those
before it is returned. -/
def eraseOrUnshift (vector : ChunkedRangeVector) (index : Nat) :
    Option Nat × ChunkedRangeVector :=
  let passed := passUnshift index index [] vector
  match passed.2.toCursor.after with
  | [] => (some passed.1.toNat, vector)
  | range :: _ =>
      (if range.first ≤ index then none else some passed.1.toNat, (passed.2.doErase index).chunks)

section Edits

variable {vector more : ChunkedRangeVector} {set other : IndexSet} {it : Iterator}
  {before after ranges : List Range} {bound start : Nat}

/-- Adding an index. -/
theorem Holds.add (holds : Holds vector set) (index : Nat) :
    Holds (vector.add index) (set.add index) :=
  holds_ofCursor ((holds.stands_find index).doAdd index) _

/-- Adding an index that is shifted by the set. -/
theorem Holds.addShifted (holds : Holds vector set) (index : Nat) :
    (vector.addShifted index).1 = (set.addShifted index).1 ∧
      Holds (vector.addShifted index).2 (set.addShifted index).2 := by
  have separated : Separated 0 (rangesOf vector) := holds.ranges ▸ set.separated
  obtain ⟨moved, stands⟩ := stands_passShift sound_nil holds.sound separated index 0
  rw [passedOf_nil, holds.ranges, Int.natCast_zero, Int.add_zero] at moved stands
  have same : (passShift index [] vector).1.toNat = set.shift index := by
    rw [moved, IndexSet.shift]
    omega
  refine ⟨same, ?_⟩
  rw [ChunkedRangeVector.addShifted, same]
  exact holds_ofCursor (stands.doAdd (set.shift index))
    (set.overtake_spec index).2.1.sound_doAdd

/-- Adding indices in order, from one place to the next. -/
theorem stands_addAll {indices : List Nat} (stands : Stands it ⟨before, after⟩)
    (ends : EndsBelow bound before) (separated : Separated bound after)
    (ordered : indices.Pairwise (· < ·)) (below : ∀ index ∈ indices, bound ≤ index + 1) :
    Stands (addAll it indices) (IndexSet.addAll ⟨before, after⟩ indices) := by
  induction indices generalizing it before after bound with
  | nil => exact stands
  | cons index rest ih =>
      obtain ⟨least, sorted⟩ := List.pairwise_cons.mp ordered
      have near := below index List.mem_cons_self
      have place : (Cursor.find ⟨before, after⟩ index).At index :=
        Cursor.at_seek near ends separated
      obtain ⟨⟨reached, near', ending, later⟩, _⟩ := place.doAdd
      apply ih ((stands.find near ends separated).doAdd index) ending later sorted
      intro other member
      have := least other member
      omega

/-- Adding the indices of another set. -/
theorem Holds.addSet (holds : Holds vector set) (others : Holds more other) :
    Holds (vector.addSet more) (set.addSet other) := by
  rw [ChunkedRangeVector.addSet, others.asIndexes_eq]
  exact holds_ofCursor (stands_addAll holds.stands_begin (endsBelow_nil 0) set.separated
    other.pairwise_asIndexes fun _ _ => Nat.zero_le _) _

/-- Removing an index. -/
theorem Holds.remove (holds : Holds vector set) (index : Nat) :
    Holds (vector.remove index) (set.remove index) := by
  obtain ⟨⟨bound, below, ends, separated⟩, _⟩ := set.at_find index
  exact holds_ofCursor
    ((holds.stands_find index).doRemove below ends separated (Nat.lt_succ_self index)) _

/-- Removing ranges in order, from one place to the next. -/
theorem stands_removeAll (stands : Stands it ⟨before, after⟩) (ends : EndsBelow bound before)
    (separated : Separated bound after) (ordered : Separated start ranges)
    (below : bound ≤ start + 1) :
    Stands (removeAll it ranges) (IndexSet.removeAll ⟨before, after⟩ ranges) := by
  induction ranges generalizing it before after bound start with
  | nil => exact stands
  | cons range rest ih =>
      obtain ⟨begun, occupied, later⟩ := ordered
      have near : bound ≤ range.first + 1 := below.trans (Nat.succ_le_succ begun)
      obtain ⟨⟨reached, _, ending, remaining⟩, _⟩ :=
        Cursor.remove_spec ends near separated occupied
      have removed := stands.doRemove near ends separated occupied
      rw [removeAll, IndexSet.removeAll, removed.place]
      by_cases ended :
          (Cursor.doRemove ⟨before, after⟩ range.first range.second).after.isEmpty = true
      · simp only [if_pos ended]
        exact removed
      · simp only [if_neg ended]
        exact ih removed ending remaining later (by omega)

/-- Removing the indices of another set. -/
theorem Holds.removeSet (holds : Holds vector set) (others : Holds more other) :
    Holds (vector.removeSet more) (set.removeSet other) := by
  rw [ChunkedRangeVector.removeSet, others.ranges]
  exact holds_ofCursor (stands_removeAll holds.stands_begin (endsBelow_nil 0) set.separated
    other.separated (Nat.zero_le _)) _

/-- Inserting indices. -/
theorem Holds.insertAt (holds : Holds vector set) (index count : Nat) :
    Holds (vector.insertAt index count) (set.insertAt index count) :=
  holds_ofCursor ((holds.stands_find index).insertAt index count) _

/-- Making room for indices. -/
theorem Holds.shiftForInsertAt (holds : Holds vector set) (index count : Nat)
    (positive : 0 < count) :
    Holds (vector.shiftForInsertAt index count) (set.shiftForInsertAt index count positive) :=
  holds_ofCursor ((holds.stands_find index).shiftForInsertAt index count) _

/-- Erasing an index. -/
theorem Holds.eraseAt (holds : Holds vector set) (index : Nat) :
    Holds (vector.eraseAt index) (set.eraseAt index) :=
  holds_ofCursor ((holds.stands_find index).doErase (set.at_find index)) _

/-- Erasing an index, or unshifting it. -/
theorem Holds.eraseOrUnshift (holds : Holds vector set) (index : Nat) :
    (vector.eraseOrUnshift index).1 = (set.eraseOrUnshift index).1 ∧
      Holds (vector.eraseOrUnshift index).2 (set.eraseOrUnshift index).2 := by
  have separated : Separated 0 (rangesOf vector) := holds.ranges ▸ set.separated
  obtain ⟨total, stands⟩ := stands_passUnshift index index sound_nil holds.sound separated
  rw [passedOf_nil, holds.ranges, sizes_nil, Int.add_zero] at total
  rw [passedOf_nil, holds.ranges] at stands
  change _ + sizes (set.find index).before = _ at total
  change Stands _ (set.find index) at stands
  have same : (passUnshift index index [] vector).1.toNat =
      (set.find index).before.foldr (fun range shifted => shifted - range.size) index := by
    rw [IndexSet.foldr_sub_size]
    rw [sizes] at total
    omega
  have erased := holds_ofCursor (stands.doErase (set.at_find index)) (set.at_find index).doErase.1
  rw [ChunkedRangeVector.eraseOrUnshift, IndexSet.eraseOrUnshift, stands.place, same]
  cases (set.find index).after with
  | nil => exact ⟨rfl, holds⟩
  | cons range rest => exact ⟨rfl, erased⟩

end Edits

end ChunkedRangeVector

end EventTalks.Realm

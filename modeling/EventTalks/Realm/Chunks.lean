import EventTalks.Realm.Ranges
import Mathlib.Algebra.BigOperators.Group.List.Basic

/-! # Chunks of ranges

The ranges of an index set are stored in chunks, each with the number of its indices, so that
a chunk can be passed without a look at its ranges. An iterator stands in a chunk. What is done
at an iterator is what `Realm.Cursor` does at a place between the ranges, whatever chunks they
are in, and the numbers that are kept with the chunks stay those of their indices
(`EventTalks.Realm.Stands`).
-/

namespace EventTalks.Realm

/-- The number of ranges that a chunk can hold in a release build. -/
def maxSize : Nat := 256

/-- Ranges that are stored together, and the number of their indices that is kept with them. -/
structure Chunk where
  data : List Range
  count : Int
deriving DecidableEq, Repr

/-- The number of indices in some ranges. -/
def sizes (ranges : List Range) : Int := ((ranges.map Range.size).sum : Nat)

/-- The ranges of some chunks, in order. -/
def rangesOf (chunks : List Chunk) : List Range := chunks.flatMap Chunk.data

/-- The ranges of some chunks, where chunks and ranges are listed the last one first. -/
def passedOf (earlier : List Chunk) : List Range := earlier.flatMap fun chunk => chunk.data.reverse

namespace Chunk

/-- Where the first range begins. The source keeps it with the chunk, and sets it whenever the
first range changes. -/
def begin (chunk : Chunk) : Nat := (chunk.data.head?.map Range.first).getD 0

/-- Where the last range ends. The source keeps it with the chunk, and sets it whenever the last
range changes. -/
def stop (chunk : Chunk) : Nat := (chunk.data.getLast?.map Range.second).getD 0

/-- A chunk has ranges, no more than it can hold, and the number of their indices is kept with
it. -/
structure Sound (chunk : Chunk) : Prop where
  occupied : chunk.data ≠ []
  bounded : chunk.data.length ≤ maxSize
  counted : chunk.count = sizes chunk.data

end Chunk

section Sizes

variable {range : Range} {ranges other : List Range} {chunk : Chunk} {chunks : List Chunk}

/-- No ranges have no indices. -/
@[simp] theorem sizes_nil : sizes [] = 0 := rfl

/-- The first range has its indices besides the others. -/
@[simp] theorem sizes_cons : sizes (range :: ranges) = range.size + sizes ranges := by
  simp [sizes]

/-- Ranges after others add their indices. -/
@[simp] theorem sizes_append : sizes (ranges ++ other) = sizes ranges + sizes other := by
  simp [sizes]

/-- The order does not matter for the number of indices. -/
@[simp] theorem sizes_reverse : sizes ranges.reverse = sizes ranges := by
  simp [sizes, List.sum_reverse]

/-- Ranges that keep their sizes have as many indices as before. -/
theorem sizes_map {move : Range → Range}
    (keeps : ∀ range ∈ ranges, (move range).size = range.size) :
    sizes (ranges.map move) = sizes ranges := by
  have same : (ranges.map move).map Range.size = ranges.map Range.size := by
    rw [List.map_map]
    exact List.map_congr_left keeps
  rw [sizes, same, sizes]

@[simp] theorem rangesOf_nil : rangesOf [] = [] := rfl

@[simp] theorem rangesOf_cons : rangesOf (chunk :: chunks) = chunk.data ++ rangesOf chunks := rfl

/-- Chunks after others have their ranges after those. -/
@[simp] theorem rangesOf_append (chunks more : List Chunk) :
    rangesOf (chunks ++ more) = rangesOf chunks ++ rangesOf more := List.flatMap_append

@[simp] theorem passedOf_nil : passedOf [] = [] := rfl

@[simp] theorem passedOf_cons :
    passedOf (chunk :: chunks) = chunk.data.reverse ++ passedOf chunks := rfl

/-- Chunks that are listed the last one first have their ranges listed so. -/
theorem rangesOf_reverse (earlier : List Chunk) :
    rangesOf earlier.reverse = (passedOf earlier).reverse := by
  induction earlier with
  | nil => rfl
  | cons chunk earlier ih => simp [ih]

/-- Chunks whose ranges are moved have the moved ranges. -/
theorem rangesOf_map (move : Range → Range) (chunks : List Chunk) :
    rangesOf (chunks.map fun chunk => ⟨chunk.data.map move, chunk.count⟩) =
      (rangesOf chunks).map move := by
  induction chunks with
  | nil => rfl
  | cons chunk chunks ih => simp [ih]

end Sizes

/-- A place in a chunk: the chunks before, nearest first, the ranges of the chunk before the
place, nearest first, those from it on, the number kept with the chunk, and the chunks after.
At the end there is no chunk. -/
structure Iterator where
  earlier : List Chunk
  passed : List Range
  rest : List Range
  count : Int
  later : List Chunk

namespace Iterator

/-- The beginning of the first one of some chunks, or the end. -/
def enter (earlier : List Chunk) : List Chunk → Iterator
  | [] => ⟨earlier, [], [], 0, []⟩
  | chunk :: later => ⟨earlier, [], chunk.data, chunk.count, later⟩

/-- The chunk that an iterator stands in. -/
def chunk (it : Iterator) : Chunk := ⟨it.passed.reverse ++ it.rest, it.count⟩

/-- The chunks from the one on that an iterator stands in. -/
def fromHere (it : Iterator) : List Chunk :=
  match it.rest with
  | [] => []
  | _ :: _ => it.chunk :: it.later

/-- All chunks. -/
def chunks (it : Iterator) : List Chunk := it.earlier.reverse ++ it.fromHere

/-- The place between the ranges, without their chunks. -/
def toCursor (it : Iterator) : Cursor :=
  ⟨it.passed ++ passedOf it.earlier, it.rest ++ rangesOf it.later⟩

/-- Behind the last range of a chunk, an iterator stands at the next one; a chunk without ranges
is taken out. -/
def settle (it : Iterator) : Iterator :=
  match it.rest, it.passed with
  | [], [] => enter it.earlier it.later
  | [], _ :: _ => enter (⟨it.passed.reverse, it.count⟩ :: it.earlier) it.later
  | _ :: _, _ => it

def next (it : Iterator) : Iterator :=
  match it.rest with
  | [] => it
  | range :: rest => settle { it with passed := range :: it.passed, rest }

/-- The iterator before, which may be the last one of the chunk before. -/
def prev (it : Iterator) : Iterator :=
  match it.passed with
  | range :: passed => { it with passed, rest := range :: it.rest }
  | [] =>
      match it.earlier with
      | [] => it
      | chunk :: earlier =>
          match chunk.data.reverse with
          | [] => it
          | range :: passed => ⟨earlier, passed, [range], chunk.count, it.fromHere⟩

/-- The range at an iterator gets other ends: `set`, and `adjust`, which gives the distances. -/
def set (it : Iterator) (range : Range) : Iterator :=
  match it.rest with
  | [] => it
  | before :: rest =>
      { it with rest := range :: rest, count := it.count - before.size + range.size }

/-- The ranges from an iterator on are shifted, one after the other. -/
def shift (it : Iterator) (move : Range → Range) : Iterator :=
  { it with
    rest := it.rest.map move
    later := it.later.map fun chunk => ⟨chunk.data.map move, chunk.count⟩ }

/-- The range at an iterator is taken out. -/
def erase (it : Iterator) : Iterator :=
  match it.rest with
  | [] => it
  | range :: rest => settle { it with rest, count := it.count - range.size }

/-- A full chunk is split in half, to make space for one more range. -/
def ensureSpace (it : Iterator) : Iterator :=
  let data := it.passed.reverse ++ it.rest
  let offset := it.passed.length
  if data.length + 1 ≤ maxSize then it
  else
    let toMove := maxSize / 2
    let moved := data.drop (data.length - toMove)
    let prev : Chunk := ⟨data.take (data.length - toMove), it.count - sizes moved⟩
    if toMove ≤ offset then
      ⟨prev :: it.earlier, (moved.take (offset - toMove)).reverse, moved.drop (offset - toMove),
        sizes moved, it.later⟩
    else
      ⟨it.earlier, (prev.data.take offset).reverse, prev.data.drop offset, prev.count,
        ⟨moved, sizes moved⟩ :: it.later⟩

/-- A range is put behind all others. -/
def pushBack (earlier : List Chunk) (range : Range) : Iterator :=
  match earlier with
  | [] => ⟨[], [], [range], range.size, []⟩
  | chunk :: earlier =>
      if chunk.data.length < maxSize then
        ⟨earlier, chunk.data.reverse, [range], chunk.count + range.size, []⟩
      else ⟨chunk :: earlier, [], [range], range.size, []⟩

/-- A range is put before the one at an iterator. -/
def insert (it : Iterator) (range : Range) : Iterator :=
  match it.rest with
  | [] => pushBack it.earlier range
  | _ :: _ =>
      let it := it.ensureSpace
      { it with rest := range :: it.rest, count := it.count + range.size }

/-- The chunks that an iterator has are sound, and at the end there are no more. -/
structure Sound (it : Iterator) : Prop where
  earlier : ∀ chunk ∈ it.earlier, chunk.Sound
  here : it.rest ≠ [] → it.chunk.Sound
  later : ∀ chunk ∈ it.later, chunk.Sound
  ending : it.rest = [] → it.passed = [] ∧ it.later = []

end Iterator

/-- An iterator of sound chunks stands at a place between the ranges. -/
structure Stands (it : Iterator) (cursor : Cursor) : Prop extends it.Sound where
  place : it.toCursor = cursor

section Places

variable {it : Iterator} {earlier later : List Chunk} {before after : List Range}
  {range other : Range}

/-- At a range there is a chunk. -/
theorem Stands.at_range (stands : Stands it ⟨before, range :: after⟩) :
    ∃ earlier passed rest count later, it = ⟨earlier, passed, range :: rest, count, later⟩ ∧
      before = passed ++ passedOf earlier ∧ after = rest ++ rangesOf later := by
  obtain ⟨earlier, passed, rest, count, later⟩ := it
  obtain ⟨rfl, place⟩ := Cursor.mk.inj stands.place
  cases rest with
  | nil =>
      rw [(stands.ending rfl).2] at place
      cases place
  | cons first rest =>
      obtain ⟨rfl, rfl⟩ := List.cons.inj place
      exact ⟨_, _, _, _, _, rfl, rfl, rfl⟩

/-- At the end there is no chunk. -/
theorem Stands.at_end (stands : Stands it ⟨before, []⟩) :
    ∃ earlier count, it = ⟨earlier, [], [], count, []⟩ ∧ before = passedOf earlier := by
  obtain ⟨earlier, passed, rest, count, later⟩ := it
  obtain ⟨rfl, place⟩ := Cursor.mk.inj stands.place
  obtain ⟨rfl, _⟩ := List.append_eq_nil_iff.mp place
  obtain ⟨rfl, rfl⟩ := stands.ending rfl
  exact ⟨_, _, rfl, rfl⟩

/-- The chunk at a range is sound, with all its ranges. -/
theorem Stands.here_eq {passed rest : List Range} {count : Int}
    (stands : Stands ⟨earlier, passed, range :: rest, count, later⟩ ⟨before, after⟩) :
    Chunk.Sound ⟨passed.reverse ++ range :: rest, count⟩ :=
  stands.here (List.cons_ne_nil _ _)

/-- The chunks from an iterator on are sound, and have the ranges from it on besides those that
are passed in its chunk. -/
theorem Iterator.Sound.fromHere (sound : it.Sound) :
    rangesOf it.fromHere = it.passed.reverse ++ it.rest ++ rangesOf it.later ∧
      ∀ chunk ∈ it.fromHere, chunk.Sound := by
  obtain ⟨earlier, passed, rest, count, later⟩ := it
  cases rest with
  | nil =>
      obtain ⟨rfl, rfl⟩ := sound.ending rfl
      exact ⟨rfl, nofun⟩
  | cons range rest =>
      have here := sound.here (List.cons_ne_nil _ _)
      exact ⟨rfl, List.forall_mem_cons.mpr ⟨here, sound.later⟩⟩

/-- The ranges of the chunks are those around the place. -/
theorem Iterator.Sound.rangesOf_chunks (sound : it.Sound) :
    rangesOf it.chunks = it.toCursor.ranges := by
  rw [Iterator.chunks, rangesOf_append, rangesOf_reverse, Cursor.ranges, Iterator.toCursor,
    List.reverseAux_eq, sound.fromHere.1]
  simp

/-- The chunks of an iterator are sound. -/
theorem Iterator.Sound.chunks (sound : it.Sound) : ∀ chunk ∈ it.chunks, chunk.Sound := by
  intro chunk member
  rcases List.mem_append.mp member with before | after
  · exact sound.earlier chunk (List.mem_reverse.mp before)
  · exact sound.fromHere.2 chunk after

/-- No chunks are sound. -/
theorem sound_nil : ∀ chunk ∈ ([] : List Chunk), chunk.Sound := nofun

/-- An iterator that enters chunks stands before their ranges. -/
theorem stands_enter (before : ∀ chunk ∈ earlier, chunk.Sound)
    (after : ∀ chunk ∈ later, chunk.Sound) :
    Stands (.enter earlier later) ⟨passedOf earlier, rangesOf later⟩ := by
  cases later with
  | nil => exact ⟨⟨before, fun here => absurd rfl here, nofun, fun _ => ⟨rfl, rfl⟩⟩, rfl⟩
  | cons chunk later =>
      obtain ⟨sound, others⟩ := List.forall_mem_cons.mp after
      exact ⟨⟨before, fun _ => sound, others, fun none => absurd none sound.occupied⟩, rfl⟩

/-- An iterator that is settled stands at the same place. -/
theorem stands_settle (before : ∀ chunk ∈ it.earlier, chunk.Sound)
    (here : it.chunk.data ≠ [] → it.chunk.Sound)
    (after : ∀ chunk ∈ it.later, chunk.Sound) : Stands it.settle it.toCursor := by
  obtain ⟨earlier, passed, rest, count, later⟩ := it
  cases rest with
  | nil =>
      cases passed with
      | nil => exact stands_enter before after
      | cons range passed =>
          have sound := here (by simp [Iterator.chunk])
          rw [Iterator.chunk, List.append_nil] at sound
          have stands := stands_enter (List.forall_mem_cons.mpr ⟨sound, before⟩) after
          rwa [passedOf_cons, List.reverse_reverse] at stands
  | cons range rest =>
      have sound := here (by simp [Iterator.chunk])
      exact ⟨⟨before, fun _ => sound, after, fun none => nomatch none⟩, rfl⟩

/-- **The next place.** -/
theorem Stands.next (stands : Stands it ⟨before, range :: after⟩) :
    Stands it.next ⟨range :: before, after⟩ := by
  obtain ⟨earlier, passed, rest, count, later, rfl, rfl, rfl⟩ := stands.at_range
  have sound := stands.here_eq
  apply @stands_settle ⟨earlier, range :: passed, rest, count, later⟩ stands.earlier _
    stands.later
  intro _
  rwa [Iterator.chunk, List.reverse_cons, List.append_assoc, List.singleton_append]

/-- **The place before**, which may be in the chunk before. -/
theorem Stands.prev (stands : Stands it ⟨range :: before, after⟩) :
    Stands it.prev ⟨before, range :: after⟩ := by
  obtain ⟨earlier, passed, rest, count, later⟩ := it
  obtain ⟨place, rfl⟩ := Cursor.mk.inj stands.place
  cases passed with
  | cons first passed =>
      obtain ⟨rfl, rfl⟩ := List.cons.inj place
      have occupied : rest ≠ [] := fun none => nomatch (stands.ending none).1
      have sound := stands.here occupied
      rw [Iterator.chunk, List.reverse_cons, List.append_assoc, List.singleton_append] at sound
      exact ⟨⟨stands.earlier, fun _ => sound, stands.later, nofun⟩, rfl⟩
  | nil =>
      cases earlier with
      | nil => cases place
      | cons chunk earlier =>
          obtain ⟨sound, others⟩ := List.forall_mem_cons.mp stands.earlier
          obtain ⟨data, number⟩ := chunk
          cases last : data.reverse with
          | nil => exact absurd (List.reverse_eq_nil_iff.mp last) sound.occupied
          | cons first passed =>
              rw [List.nil_append, passedOf_cons, last] at place
              obtain ⟨rfl, rfl⟩ := List.cons.inj place
              have whole : data = passed.reverse ++ [first] := by
                rw [← List.reverse_reverse data, last, List.reverse_cons]
              have arrives : Iterator.prev ⟨⟨data, number⟩ :: earlier, [], rest, count, later⟩ =
                  ⟨earlier, passed, [first], number,
                    Iterator.fromHere ⟨⟨data, number⟩ :: earlier, [], rest, count, later⟩⟩ := by
                simp only [Iterator.prev, last]
              rw [arrives]
              obtain ⟨same, other⟩ := stands.toSound.fromHere
              refine ⟨⟨others, fun _ => ?_, other, nofun⟩, ?_⟩
              · rwa [whole] at sound
              · rw [Iterator.toCursor, same]
                rfl

/-- **A range with other ends**, counted as it is. -/
theorem Stands.set (stands : Stands it ⟨before, range :: after⟩) (other : Range) :
    Stands (it.set other) ⟨before, other :: after⟩ := by
  obtain ⟨earlier, passed, rest, count, later, rfl, rfl, rfl⟩ := stands.at_range
  have sound := stands.here_eq
  refine ⟨⟨stands.earlier, fun _ => ⟨by simp [Iterator.chunk, Iterator.set], ?_, ?_⟩,
    stands.later, nofun⟩, rfl⟩
  · have bounded := sound.bounded
    rw [List.length_append, List.length_cons] at bounded
    rwa [Iterator.chunk, Iterator.set, List.length_append, List.length_cons]
  · have counted := sound.counted
    simp only [sizes_append, sizes_cons] at counted
    simp only [Iterator.chunk, Iterator.set, sizes_append, sizes_cons]
    omega

/-- A chunk stays sound with as many ranges and indices as before. -/
theorem Chunk.Sound.map {chunk moved : Chunk} (sound : chunk.Sound)
    (length : moved.data.length = chunk.data.length) (same : sizes moved.data = sizes chunk.data)
    (kept : moved.count = chunk.count) : moved.Sound := by
  refine ⟨?_, length.le.trans sound.bounded, ?_⟩
  · rw [← List.length_pos_iff, length]
    exact List.length_pos_iff.mpr sound.occupied
  · rw [kept, sound.counted, same]

/-- **Ranges that move** and keep their sizes. -/
theorem Stands.shift (stands : Stands it ⟨before, after⟩) {move : Range → Range}
    (keeps : ∀ range ∈ after, (move range).size = range.size) :
    Stands (it.shift move) ⟨before, after.map move⟩ := by
  obtain ⟨earlier, passed, rest, count, later⟩ := it
  obtain ⟨rfl, rfl⟩ := Cursor.mk.inj stands.place
  have place : (Iterator.shift ⟨earlier, passed, rest, count, later⟩ move).toCursor =
      ⟨passed ++ passedOf earlier, (rest ++ rangesOf later).map move⟩ := by
    rw [Iterator.toCursor, Iterator.shift, rangesOf_map, List.map_append]
  refine ⟨⟨stands.earlier, fun here => ?_, fun moved among => ?_, fun none => ?_⟩, place⟩
  · have sound := stands.here fun none => here (congrArg (List.map move) none)
    apply sound.map
    · simp [Iterator.chunk, Iterator.shift]
    · have same : sizes (rest.map move) = sizes rest := sizes_map fun range among =>
        keeps range (List.mem_append_left _ among)
      simp [Iterator.chunk, Iterator.shift, same]
    · rfl
  · obtain ⟨chunk, member, rfl⟩ := List.mem_map.mp among
    apply (stands.later chunk member).map
    · exact List.length_map _
    · apply sizes_map
      intro range inside
      exact keeps range (List.mem_append_right _ (List.mem_flatMap.mpr ⟨chunk, member, inside⟩))
    · rfl
  · obtain ⟨rfl, rfl⟩ := stands.ending (List.map_eq_nil_iff.mp none)
    exact ⟨rfl, rfl⟩

/-- **A range that is taken out.** -/
theorem Stands.erase (stands : Stands it ⟨before, range :: after⟩) :
    Stands it.erase ⟨before, after⟩ := by
  obtain ⟨earlier, passed, rest, count, later, rfl, rfl, rfl⟩ := stands.at_range
  have sound := stands.here_eq
  apply @stands_settle ⟨earlier, passed, rest, count - range.size, later⟩ stands.earlier _
    stands.later
  intro occupied
  refine ⟨occupied, ?_, ?_⟩
  · have bounded := sound.bounded
    simp only [List.length_append, List.length_cons] at bounded
    simp only [Iterator.chunk, List.length_append]
    omega
  · have counted := sound.counted
    simp only [sizes_append, sizes_cons] at counted
    simp only [Iterator.chunk, sizes_append]
    omega

/-- A range is put behind all others. -/
theorem stands_pushBack (sound : ∀ chunk ∈ earlier, chunk.Sound) (range : Range) :
    Stands (.pushBack earlier range) ⟨passedOf earlier, [range]⟩ := by
  have alone : Chunk.Sound ⟨[range], range.size⟩ :=
    ⟨List.cons_ne_nil _ _, by simp [maxSize], by simp⟩
  cases earlier with
  | nil => exact ⟨⟨nofun, fun _ => alone, nofun, nofun⟩, rfl⟩
  | cons chunk earlier =>
      obtain ⟨last, others⟩ := List.forall_mem_cons.mp sound
      rw [Iterator.pushBack]
      by_cases space : chunk.data.length < maxSize
      · rw [if_pos space]
        refine ⟨⟨others, fun _ => ⟨by simp [Iterator.chunk], ?_, ?_⟩, nofun, nofun⟩,
          rfl⟩
        · simp only [Iterator.chunk, List.reverse_reverse, List.length_append]
          exact space
        · simp [Iterator.chunk, last.counted]
      · rw [if_neg space]
        exact ⟨⟨sound, fun _ => alone, nofun, nofun⟩, rfl⟩

/-- Both halves of a full chunk are sound. -/
theorem Chunk.Sound.split {data : List Range} {count : Int} (sound : Sound ⟨data, count⟩)
    (full : data.length = maxSize) :
    Sound ⟨data.take (maxSize / 2), count - sizes (data.drop (maxSize / 2))⟩ ∧
      Sound ⟨data.drop (maxSize / 2), sizes (data.drop (maxSize / 2))⟩ := by
  have parts := congrArg sizes (List.take_append_drop (maxSize / 2) data)
  rw [sizes_append] at parts
  have front : (data.take (maxSize / 2)).length = 128 := by
    rw [List.length_take, full, maxSize]
    rfl
  have back : (data.drop (maxSize / 2)).length = 128 := by
    rw [List.length_drop, full, maxSize]
  refine ⟨⟨?_, ?_, ?_⟩, ⟨?_, ?_, rfl⟩⟩
  · exact List.ne_nil_of_length_pos (by rw [front]; decide)
  · exact front.le.trans (by decide)
  · have counted := sound.counted
    dsimp only at counted ⊢
    omega
  · exact List.ne_nil_of_length_pos (by rw [back]; decide)
  · exact back.le.trans (by decide)

/-- An iterator at an offset in a chunk. -/
theorem stands_offset {data : List Range} {count : Int} {offset : Nat}
    (initial : ∀ chunk ∈ earlier, chunk.Sound) (here : Chunk.Sound ⟨data, count⟩)
    (others : ∀ chunk ∈ later, chunk.Sound) (inside : offset < data.length) :
    Stands ⟨earlier, (data.take offset).reverse, data.drop offset, count, later⟩
      ⟨(data.take offset).reverse ++ passedOf earlier, data.drop offset ++ rangesOf later⟩ := by
  refine ⟨⟨initial, fun _ => ?_, others, fun none => ?_⟩, rfl⟩
  · rwa [Iterator.chunk, List.reverse_reverse, List.take_append_drop]
  · exact absurd (List.drop_eq_nil_iff.mp none) (Nat.not_le.mpr inside)

/-- A chunk that is split has its ranges on both sides, at the same place. -/
theorem Stands.ensureSpace (stands : Stands it ⟨before, range :: after⟩) :
    Stands it.ensureSpace ⟨before, range :: after⟩ ∧
      it.ensureSpace.passed.length + it.ensureSpace.rest.length < maxSize := by
  obtain ⟨earlier, passed, rest, count, later, rfl, rfl, rfl⟩ := stands.at_range
  have sound := stands.here_eq
  generalize whole : passed.reverse ++ range :: rest = data at sound
  have offset : passed.length = passed.reverse.length := List.length_reverse.symm
  have front : (data.take passed.length).reverse = passed := by
    rw [← whole, offset, List.take_left, List.reverse_reverse]
  have back : data.drop passed.length = range :: rest := by
    rw [← whole, offset, List.drop_left]
  have long : data.length = passed.length + (range :: rest).length := by
    rw [← whole, List.length_append, ← offset]
  rw [Iterator.ensureSpace]
  simp only [whole]
  by_cases space : data.length + 1 ≤ maxSize
  · rw [if_pos space]
    refine ⟨stands, ?_⟩
    simp only
    omega
  · rw [if_neg space]
    have full : data.length = maxSize := Nat.le_antisymm sound.bounded (by omega)
    have half : data.length - maxSize / 2 = maxSize / 2 := by
      rw [full, maxSize]
    rw [half]
    obtain ⟨first, second⟩ := sound.split full
    have many : 2 ≤ maxSize := by decide
    rw [List.length_cons] at long
    by_cases beyond : maxSize / 2 ≤ passed.length
    · -- the place is in the second half
      have around : maxSize / 2 + (passed.length - maxSize / 2) = passed.length :=
        Nat.add_sub_cancel' beyond
      have inside : passed.length - maxSize / 2 < (data.drop (maxSize / 2)).length := by
        rw [List.length_drop]
        omega
      have split := stands_offset (List.forall_mem_cons.mpr ⟨first, stands.earlier⟩) second
        stands.later inside
      rw [passedOf_cons, ← List.append_assoc, ← List.reverse_append, ← List.take_add, around,
        front, List.drop_drop, around, back] at split
      rw [if_pos beyond, List.drop_drop, around, back]
      refine ⟨split, ?_⟩
      simp only [List.length_reverse, List.length_take, List.length_drop, List.length_cons]
      omega
    · -- the place is in the first half
      have within : passed.length < (data.take (maxSize / 2)).length := by
        rw [List.length_take]
        omega
      have split := stands_offset stands.earlier first
        (List.forall_mem_cons.mpr ⟨second, stands.later⟩) within
      rw [rangesOf_cons, ← List.append_assoc, ← List.drop_append_of_le_length within.le,
        List.take_append_drop, back, List.take_take, Nat.min_eq_left (Nat.le_of_not_le beyond),
        front] at split
      rw [if_neg beyond]
      simp only [List.take_take, Nat.min_eq_left (Nat.le_of_not_le beyond), front]
      refine ⟨split, ?_⟩
      simp only [List.length_take, List.length_drop]
      omega

/-- **A range that is put in.** -/
theorem Stands.insert (stands : Stands it ⟨before, after⟩) (range : Range) :
    Stands (it.insert range) ⟨before, range :: after⟩ := by
  cases after with
  | nil =>
      obtain ⟨earlier, count, rfl, rfl⟩ := stands.at_end
      exact stands_pushBack stands.earlier range
  | cons next after =>
      obtain ⟨spaced, space⟩ := stands.ensureSpace
      have inserts : it.insert range = { it.ensureSpace with
          rest := range :: it.ensureSpace.rest
          count := it.ensureSpace.count + range.size } := by
        obtain ⟨_, _, _, _, _, rfl, _⟩ := stands.at_range
        rfl
      rw [inserts]
      obtain ⟨earlier, passed, rest, count, later, here, rfl, rfl⟩ := spaced.at_range
      rw [here] at spaced space ⊢
      have sound := spaced.here_eq
      refine ⟨⟨spaced.earlier, fun _ => ⟨by simp [Iterator.chunk], ?_, ?_⟩,
        spaced.later, nofun⟩, rfl⟩
      · simp only [Iterator.chunk, List.length_append, List.length_reverse, List.length_cons]
        simp only [List.length_cons] at space
        omega
      · have counted := sound.counted
        simp only [sizes_append, sizes_cons] at counted
        simp only [Iterator.chunk, sizes_append, sizes_cons]
        omega

end Places

end EventTalks.Realm

import EventTalks.Realm.Chunks

/-! # Edits in chunks

What an index set does at an iterator, chunk by chunk and range by range. Each operation leads
from the place of a cursor to that of the cursor after the same operation
(`EventTalks.Realm.Stands.doAdd` and the others).
-/

namespace EventTalks.Realm

section Seek

variable {bound index : Nat} {before data after ranges : List Range} {range : Range}

/-- Ranges before others that are apart are apart. -/
theorem Separated.left (separated : Separated bound (data ++ after)) : Separated bound data := by
  induction data generalizing bound with
  | nil => trivial
  | cons range data ih => exact ⟨separated.1, separated.2.1, ih separated.2.2⟩

/-- Ranges after others that are apart are apart. -/
theorem Separated.right (separated : Separated bound (data ++ after)) : Separated bound after := by
  induction data generalizing bound with
  | nil => exact separated
  | cons range data ih =>
      obtain ⟨below, occupied, later⟩ := separated
      exact (ih later).mono (by omega)

/-- Ranges that are apart end before the last one does. -/
theorem Separated.second_le (separated : Separated bound data) (ends : data.getLast? = some range)
    {other : Range} (among : other ∈ data) : other.second ≤ range.second := by
  have occupied := separated.occupied among
  have covered : Covered data (other.second - 1) :=
    ⟨other, among, Nat.le_sub_one_of_lt occupied, Nat.sub_one_lt_of_lt occupied⟩
  have within := (separated.lt_of_getLast? ends).2 _ covered
  omega

/-- Ranges that end below a bound are not empty. -/
theorem EndsBelow.occupied (ends : EndsBelow bound ranges) (among : range ∈ ranges) :
    range.first < range.second := by
  induction ranges generalizing bound with
  | nil => cases among
  | cons last initial ih =>
      obtain ⟨occupied, _, earlier⟩ := ends
      rcases List.mem_cons.mp among with rfl | before
      · exact occupied
      · exact ih earlier before

/-- All ranges that end at an index or below are passed. -/
theorem Cursor.seek_append_of_le (ended : ∀ range ∈ data, range.second ≤ index) :
    seek index before (data ++ after) = seek index (data.reverse ++ before) after := by
  induction data generalizing before with
  | nil => rfl
  | cons range data ih =>
      obtain ⟨first, others⟩ := List.forall_mem_cons.mp ended
      rw [List.cons_append, seek, if_pos first, ih others, List.reverse_cons, List.append_assoc,
        List.singleton_append]

/-- Where a range ends above an index, no range after it is reached. -/
theorem Cursor.seek_append (passed before after : List Range)
    (above : ∃ range ∈ data, index < range.second) :
    seek index (passed ++ before) (data ++ after) =
        ⟨(seek index passed data).before ++ before, (seek index passed data).after ++ after⟩ ∧
      (seek index passed data).after ≠ [] := by
  induction data generalizing passed with
  | nil => simp at above
  | cons range data ih =>
      rw [List.cons_append, seek, seek]
      by_cases ended : range.second ≤ index
      · simp only [if_pos ended]
        apply ih (range :: passed)
        obtain ⟨other, among, beyond⟩ := above
        rcases List.mem_cons.mp among with rfl | later
        · omega
        · exact ⟨other, later, beyond⟩
      · simp only [if_neg ended]
        exact ⟨rfl, List.cons_ne_nil _ _⟩

/-- Passed ranges do not come back. -/
theorem Cursor.length_seek_le (index : Nat) (before after : List Range) :
    (seek index before after).after.length ≤ after.length := by
  induction after generalizing before with
  | nil => exact Nat.le_refl _
  | cons range rest ih =>
      rw [seek]
      by_cases ended : range.second ≤ index
      · rw [if_pos ended]
        exact (ih _).trans (Nat.le_succ _)
      · rw [if_neg ended]

/-- To remove from a place on passes the ranges that end before it first. -/
theorem Cursor.remove_seek (start stop : Nat) (before after : List Range) :
    remove start stop before after =
      remove start stop (seek start before after).before (seek start before after).after := by
  induction after generalizing before with
  | nil => rfl
  | cons range rest ih =>
      rw [seek]
      by_cases ended : range.second ≤ start
      · rw [if_pos ended, ← ih, remove, if_pos ended]
      · rw [if_neg ended]

/-- A range that moves back has as many indices. -/
@[simp] theorem Range.size_shift (distance : Nat) (range : Range) :
    (range.shift distance).size = range.size := by
  simp only [size, shift]
  omega

/-- A range that moves forward has as many indices, if it does not begin at the first one. -/
theorem Range.size_unshift {range : Range} (positive : 0 < range.first) :
    range.unshift.size = range.size := by
  simp only [size, unshift]
  omega

/-- Ranges from a positive bound on keep their sizes when they move forward. -/
theorem Separated.size_unshift (separated : Separated bound data) (positive : 0 < bound) :
    ∀ range ∈ data, range.unshift.size = range.size := by
  intro range among
  apply Range.size_unshift
  have occupied := separated.occupied among
  have := separated.le_of_covered ⟨range, among, Nat.le_refl _, occupied⟩
  omega

end Seek

namespace Chunk

variable {index : Nat} {data rest : List Range} {count : Int}

/-- The end of a chunk is that of its later ranges. -/
theorem stop_append (passed : List Range) (occupied : rest ≠ []) :
    stop ⟨passed ++ rest, count⟩ = stop ⟨rest, count⟩ := by
  rw [stop, stop, List.getLast?_append_of_ne_nil _ occupied]

/-- A chunk with a range that begins at an index or below does so. -/
theorem begin_append_le {passed : List Range} (occupied : passed ≠ [])
    (before : ∀ range ∈ passed, range.first ≤ index) :
    begin ⟨passed.reverse ++ rest, count⟩ ≤ index := by
  obtain ⟨first, others, split⟩ := List.exists_cons_of_ne_nil
    (mt List.reverse_eq_nil_iff.mp occupied)
  have among : first ∈ passed := List.mem_reverse.mp (split ▸ List.mem_cons_self)
  rw [begin, split]
  exact before first among

/-- A chunk that ends at an index or below has no range that ends above it. -/
theorem second_le_of_stop_le {bound : Nat} (separated : Separated bound data)
    (ended : stop ⟨data, count⟩ ≤ index) : ∀ range ∈ data, range.second ≤ index := by
  intro range among
  obtain ⟨last, ends⟩ := Option.ne_none_iff_exists'.mp
    fun none => List.ne_nil_of_mem among (List.getLast?_eq_none_iff.mp none)
  rw [stop, ends] at ended
  exact (separated.second_le ends among).trans ended

/-- A chunk that ends above an index has a range that does. -/
theorem exists_of_lt_stop (above : index < stop ⟨data, count⟩) :
    ∃ range ∈ data, index < range.second := by
  rw [stop] at above
  cases ends : data.getLast? with
  | none =>
      rw [ends] at above
      cases above
  | some last =>
      rw [ends] at above
      exact ⟨last, List.mem_of_getLast? ends, above⟩

end Chunk

namespace Iterator

/-- Passes the chunks that end at an index or below, and in the next one the ranges that do. -/
def findChunk (index : Nat) (earlier : List Chunk) : List Chunk → Iterator
  | [] => enter earlier []
  | chunk :: later =>
      if chunk.stop ≤ index then findChunk index (chunk :: earlier) later
      else if index < chunk.begin then enter earlier (chunk :: later)
      else
        let place := Cursor.seek index [] chunk.data
        ⟨earlier, place.before, place.after, chunk.count, later⟩

/-- The iterator at the range that contains an index, or at the first one after it, looked for
from another one on; an index before the chunk of that one leads to its first range. -/
def find (it : Iterator) (index : Nat) : Iterator :=
  match it.rest with
  | [] => it
  | _ :: _ =>
      if it.chunk.stop ≤ index then findChunk index (it.chunk :: it.earlier) it.later
      else if index < it.chunk.begin then enter it.earlier it.fromHere
      else
        let place := Cursor.seek index it.passed it.rest
        { it with passed := place.before, rest := place.after }

end Iterator

section Find

variable {it : Iterator} {earlier later : List Chunk} {passed rest before after : List Range}
  {count : Int} {bound index : Nat}

/-- In a chunk that ends above an index, its place is found among the ranges of the chunk. -/
theorem stands_seek (passed : List Range) (initial : ∀ chunk ∈ earlier, chunk.Sound)
    (here : Chunk.Sound ⟨passed.reverse ++ rest, count⟩) (others : ∀ chunk ∈ later, chunk.Sound)
    (above : ∃ range ∈ rest, index < range.second) :
    Stands ⟨earlier, (Cursor.seek index passed rest).before,
        (Cursor.seek index passed rest).after, count, later⟩
      (Cursor.seek index (passed ++ passedOf earlier) (rest ++ rangesOf later)) := by
  obtain ⟨place, occupied⟩ := Cursor.seek_append passed (passedOf earlier) (rangesOf later) above
  have same := Cursor.ranges_seek index passed rest
  rw [Cursor.ranges, List.reverseAux_eq, List.reverseAux_eq] at same
  refine ⟨⟨initial, fun _ => ?_, others, fun none => absurd none occupied⟩, place.symm⟩
  rwa [Iterator.chunk, same]

/-- Chunks that end at an index or below are passed with all their ranges. -/
theorem stands_findChunk (index : Nat) (initial : ∀ chunk ∈ earlier, chunk.Sound)
    (others : ∀ chunk ∈ later, chunk.Sound) (separated : Separated bound (rangesOf later)) :
    Stands (.findChunk index earlier later)
      (Cursor.seek index (passedOf earlier) (rangesOf later)) := by
  induction later generalizing earlier with
  | nil => exact stands_enter initial others
  | cons chunk later ih =>
      obtain ⟨sound, remaining⟩ := List.forall_mem_cons.mp others
      rw [Iterator.findChunk]
      by_cases ended : chunk.stop ≤ index
      · rw [if_pos ended, rangesOf_cons,
          Cursor.seek_append_of_le (Chunk.second_le_of_stop_le separated.left ended)]
        exact ih (List.forall_mem_cons.mpr ⟨sound, initial⟩) remaining separated.right
      · have above := Chunk.exists_of_lt_stop (Nat.lt_of_not_le ended)
        rw [if_neg ended]
        by_cases early : index < chunk.begin
        · rw [if_pos early]
          obtain ⟨data, count⟩ := chunk
          cases data with
          | nil => exact absurd rfl sound.occupied
          | cons range data =>
              have first : index < range.first := early
              have occupied := separated.2.1
              have stays : ¬ range.second ≤ index := by omega
              rw [rangesOf_cons, List.cons_append, Cursor.seek, if_neg stays]
              exact stands_enter initial others
        · rw [if_neg early]
          exact stands_seek [] initial sound remaining above

/-- **Finding an index** from a place on that is not behind it. -/
theorem Stands.find (stands : Stands it ⟨before, after⟩) (below : bound ≤ index + 1)
    (ends : EndsBelow bound before) (separated : Separated bound after) :
    Stands (it.find index) (Cursor.find ⟨before, after⟩ index) := by
  cases after with
  | nil =>
      obtain ⟨earlier, count, rfl, rfl⟩ := stands.at_end
      exact stands
  | cons range after =>
      obtain ⟨earlier, passed, rest, count, later, rfl, rfl, rfl⟩ := stands.at_range
      have sound := stands.here_eq
      have split : range :: (rest ++ rangesOf later) = (range :: rest) ++ rangesOf later := rfl
      rw [split] at separated
      have stop : Chunk.stop ⟨passed.reverse ++ range :: rest, count⟩ =
          Chunk.stop ⟨range :: rest, count⟩ :=
        Chunk.stop_append _ (List.cons_ne_nil _ _)
      have finds : Iterator.find ⟨earlier, passed, range :: rest, count, later⟩ index =
          if Chunk.stop ⟨passed.reverse ++ range :: rest, count⟩ ≤ index then
            .findChunk index (⟨passed.reverse ++ range :: rest, count⟩ :: earlier) later
          else if index < Chunk.begin ⟨passed.reverse ++ range :: rest, count⟩ then
            .enter earlier (⟨passed.reverse ++ range :: rest, count⟩ :: later)
          else
            ⟨earlier, (Cursor.seek index passed (range :: rest)).before,
              (Cursor.seek index passed (range :: rest)).after, count, later⟩ := rfl
      rw [finds, Cursor.find, stop]
      by_cases ended : Chunk.stop ⟨range :: rest, count⟩ ≤ index
      · rw [if_pos ended, split,
          Cursor.seek_append_of_le (Chunk.second_le_of_stop_le separated.left ended)]
        have found := stands_findChunk index
          (List.forall_mem_cons.mpr ⟨sound, stands.earlier⟩) stands.later separated.right
        rwa [passedOf_cons, List.reverse_append, List.reverse_reverse, List.append_assoc] at found
      · rw [if_neg ended]
        by_cases early : index < Chunk.begin ⟨passed.reverse ++ range :: rest, count⟩
        · -- no range of the chunk is passed
          obtain rfl : passed = [] := by
            by_contra occupied
            have begun : ∀ range ∈ passed, range.first ≤ index := by
              intro range among
              have member : range ∈ passed ++ passedOf earlier := List.mem_append_left _ among
              have filled := ends.occupied member
              have := ends.lt_of_covered ⟨range, member, Nat.le_refl _, filled⟩
              omega
            exact absurd early (Nat.not_lt.mpr (Chunk.begin_append_le occupied begun))
          have first : index < range.first := early
          have occupied := separated.2.1
          have stays : ¬ range.second ≤ index := by omega
          rw [if_pos early, Cursor.seek, if_neg stays]
          exact stands_enter stands.earlier (List.forall_mem_cons.mpr ⟨sound, stands.later⟩)
        · rw [if_neg early]
          exact stands_seek passed stands.earlier sound stands.later
            (Chunk.exists_of_lt_stop (Nat.lt_of_not_le ended))

end Find

namespace Iterator

/-- A range of one index is put at its place, or the range there begun earlier. -/
def insertBefore (it : Iterator) (index : Nat) : Iterator :=
  match it.toCursor.after with
  | [] => it.insert ⟨index, index + 1⟩
  | range :: _ =>
      if range.first = index + 1 then it.set ⟨range.first - 1, range.second⟩
      else it.insert ⟨index, index + 1⟩

/-- The range before a place gets one index more, and is joined with the one there. -/
def grow (it : Iterator) (previous : Range) : Iterator :=
  let prev := it.prev.set ⟨previous.first, previous.second + 1⟩
  match it.toCursor.after with
  | [] => prev
  | range :: _ =>
      if previous.second + 1 = range.first then
        (prev.set ⟨previous.first, previous.second + 1 + range.size⟩).next.erase.prev
      else prev

/-- An index is added at its place. -/
def doAdd (it : Iterator) (index : Nat) : Iterator :=
  if it.toCursor.contains index then it
  else match it.toCursor.before with
    | [] => it.insertBefore index
    | previous :: _ =>
        if previous.second = index then it.grow previous else it.insertBefore index

/-- An index is removed at its place, and the ranges after it move forward. -/
def doErase (it : Iterator) (index : Nat) : Iterator :=
  match it.toCursor with
  | ⟨_, []⟩ => it
  | ⟨before, range :: _⟩ =>
      if range.first ≤ index then
        if range.first + 1 = range.second then it.erase.shift Range.unshift
        else (it.set ⟨range.first, range.second - 1⟩).next.shift Range.unshift
      else match before with
        | [] => it.shift Range.unshift
        | previous :: _ =>
            if previous.second + 1 = range.first then
              let prev := it.prev.set ⟨previous.first, previous.second + range.size⟩
              prev.next.erase.shift Range.unshift
            else it.shift Range.unshift

/-- A number of indices from an index on are added, one after the other. -/
def addFrom (it : Iterator) (index : Nat) : Nat → Iterator
  | 0 => it
  | count + 1 => addFrom (it.doAdd index).next (index + 1) count

/-- A number of indices are inserted at a place: the ranges after it move back. -/
def insertAt (it : Iterator) (index count : Nat) : Iterator :=
  match it.toCursor.after with
  | [] => it.addFrom index count
  | range :: _ =>
      if range.first ≤ index then
        ((it.set ⟨range.first, range.second + count⟩).next.shift (Range.shift count)).prev
      else (it.shift (Range.shift count)).addFrom index count

/-- The ranges after a place move back, and one that contains it is split. -/
def shiftForInsertAt (it : Iterator) (index count : Nat) : Iterator :=
  match it.toCursor.after with
  | [] => it
  | range :: _ =>
      let moved := it.shift (Range.shift count)
      if range.first + count < index + count then
        let front := moved.set ⟨range.first + count - count, index⟩
        (front.next.insert ⟨index + count, range.second + count⟩).prev
      else moved

/-- The loop that removes the indices from one on, and below another: as many steps as there are
ranges, and one more, are enough. -/
def removeLoop (start stop : Nat) : Nat → Iterator → Iterator
  | 0, it => it
  | steps + 1, it =>
      let it := it.find start
      match it.toCursor.after with
      | [] => it
      | range :: _ =>
          if stop ≤ range.first then it
          else
            let start := max range.first start
            if range.first < start ∧ stop < range.second then
              let front := it.set ⟨range.first, start⟩
              removeLoop start stop steps (front.next.insert ⟨stop, range.second⟩).prev
            else if start = range.first ∧ range.second ≤ stop then
              removeLoop start stop steps it.erase
            else if start = range.first then
              removeLoop start stop steps (it.set ⟨stop, range.second⟩)
            else removeLoop start stop steps (it.set ⟨range.first, start⟩)

def doRemove (it : Iterator) (start stop : Nat) : Iterator :=
  removeLoop start stop (it.toCursor.after.length + 1) it

end Iterator

section Edits

variable {it : Iterator} {cursor : Cursor} {before after : List Range} {range previous : Range}
  {bound index count : Nat}

/-- The place after the range at a cursor, or the end where it stands there. -/
theorem Stands.step (stands : Stands it cursor) : Stands it.next cursor.next := by
  obtain ⟨before, after⟩ := cursor
  cases after with
  | nil =>
      obtain ⟨earlier, count, rfl, rfl⟩ := stands.at_end
      exact stands
  | cons range after => exact stands.next

/-- **An index before a place.** -/
theorem Stands.insertBefore (stands : Stands it ⟨before, after⟩) (index : Nat) :
    Stands (it.insertBefore index) ⟨before, Cursor.insertBefore index after⟩ := by
  rw [Iterator.insertBefore, stands.place]
  cases after with
  | nil => exact stands.insert _
  | cons range after =>
      rw [Cursor.insertBefore]
      by_cases touching : range.first = index + 1
      · simp only [if_pos touching]
        exact stands.set _
      · simp only [if_neg touching]
        exact stands.insert _

/-- **The range before a place** with one index more. -/
theorem Stands.grow (stands : Stands it ⟨previous :: before, after⟩) :
    Stands (it.grow previous) ⟨before, Cursor.grow previous after⟩ := by
  have longer := stands.prev.set ⟨previous.first, previous.second + 1⟩
  rw [Iterator.grow, stands.place]
  cases after with
  | nil => exact longer
  | cons range after =>
      rw [Cursor.grow]
      by_cases joined : previous.second + 1 = range.first
      · simp only [if_pos joined]
        exact (longer.set _).next.erase.prev
      · simp only [if_neg joined]
        exact longer

/-- **Adding an index at its place.** -/
theorem Stands.doAdd (stands : Stands it cursor) (index : Nat) :
    Stands (it.doAdd index) (cursor.doAdd index) := by
  rw [Iterator.doAdd, Cursor.doAdd, stands.place]
  by_cases inside : cursor.contains index = true
  · rw [if_pos inside, if_pos inside]
    exact stands
  · rw [if_neg inside, if_neg inside]
    obtain ⟨before, after⟩ := cursor
    cases before with
    | nil => exact stands.insertBefore index
    | cons previous before =>
        by_cases touching : previous.second = index
        · simp only [if_pos touching]
          exact stands.grow
        · simp only [if_neg touching]
          exact stands.insertBefore index

/-- **Erasing an index at its place.** -/
theorem Stands.doErase (stands : Stands it cursor) (place : cursor.At index) :
    Stands (it.doErase index) (cursor.doErase index) := by
  obtain ⟨⟨bound, below, ends, separated⟩, above⟩ := place
  obtain ⟨before, after⟩ := cursor
  rw [Iterator.doErase.eq_def, stands.place, Cursor.doErase.eq_def]
  cases after with
  | nil => exact stands
  | cons range after =>
      obtain ⟨apart, occupied, later⟩ := separated
      have keeps := later.size_unshift (Nat.succ_pos _)
      by_cases inside : range.first ≤ index
      · simp only [if_pos inside]
        by_cases single : range.first + 1 = range.second
        · simp only [if_pos single]
          exact stands.erase.shift keeps
        · simp only [if_neg single]
          exact (stands.set _).next.shift keeps
      · simp only [if_neg inside]
        have positive : 0 < range.first := by omega
        have whole : ∀ other ∈ range :: after, other.unshift.size = other.size :=
          List.forall_mem_cons.mpr ⟨Range.size_unshift positive, keeps⟩
        cases before with
        | nil => exact stands.shift whole
        | cons previous before =>
            by_cases closed : previous.second + 1 = range.first
            · simp only [if_pos closed]
              exact (stands.prev.set _).next.erase.shift keeps
            · simp only [if_neg closed]
              exact stands.shift whole

/-- Adding indices from a place on. -/
theorem Stands.addFrom (stands : Stands it cursor) (index count : Nat) :
    Stands (it.addFrom index count) (cursor.addFrom index count) := by
  induction count generalizing it cursor index with
  | zero => exact stands
  | succ count ih => exact ih (stands.doAdd index).step _

/-- **Inserting indices at a place.** -/
theorem Stands.insertAt (stands : Stands it cursor) (index count : Nat) :
    Stands (it.insertAt index count) (cursor.insertAt index count) := by
  obtain ⟨before, after⟩ := cursor
  rw [Iterator.insertAt, stands.place, Cursor.insertAt.eq_def]
  cases after with
  | nil => exact stands.addFrom index count
  | cons range after =>
      by_cases inside : range.first ≤ index
      · simp only [if_pos inside]
        exact ((stands.set _).next.shift fun other _ => Range.size_shift count other).prev
      · simp only [if_neg inside]
        exact (stands.shift fun other _ => Range.size_shift count other).addFrom index count

/-- **Making room at a place.** -/
theorem Stands.shiftForInsertAt (stands : Stands it cursor) (index count : Nat) :
    Stands (it.shiftForInsertAt index count) (cursor.shiftForInsertAt index count) := by
  obtain ⟨before, after⟩ := cursor
  rw [Iterator.shiftForInsertAt, stands.place, Cursor.shiftForInsertAt.eq_def]
  cases after with
  | nil => exact stands
  | cons range after =>
      have moved := stands.shift fun other _ => Range.size_shift count other
      by_cases inside : range.first + count < index + count
      · simp only [if_pos inside]
        exact ((moved.set _).next.insert _).prev
      · simp only [if_neg inside]
        exact moved

/-- At a range that begins behind what is removed, the loop ends. -/
theorem Stands.removeLoop_of_le {start stop steps : Nat} {earlier rest : List Range}
    (stands : Stands it ⟨before, after⟩) (below : bound ≤ start + 1) (ends : EndsBelow bound before)
    (separated : Separated bound after)
    (reached : Cursor.seek start before after = ⟨earlier, range :: rest⟩)
    (beyond : stop ≤ range.first) :
    Stands (it.removeLoop start stop (steps + 1)) ⟨earlier, range :: rest⟩ := by
  have found := stands.find below ends separated
  rw [Cursor.find, reached] at found
  rw [Iterator.removeLoop, found.place]
  simp only [if_pos beyond]
  exact found

/-- The loop removes what is to be removed; the induction is on the steps, each of which passes a
range, takes it out or ends the loop. -/
theorem Stands.removeLoop {start stop steps : Nat} (stands : Stands it ⟨before, after⟩)
    (below : bound ≤ start + 1) (ends : EndsBelow bound before) (separated : Separated bound after)
    (nonempty : start < stop) (enough : (Cursor.seek start before after).after.length < steps) :
    Stands (it.removeLoop start stop steps) (Cursor.remove start stop before after) := by
  induction steps generalizing it before after start bound with
  | zero => cases enough
  | succ steps ih =>
      have found := stands.find below ends separated
      have place := Cursor.at_seek below ends separated
      rw [Cursor.find] at found
      rw [Cursor.remove_seek, Iterator.removeLoop]
      generalize Cursor.seek start before after = cursor at found place enough ⊢
      obtain ⟨before, after⟩ := cursor
      obtain ⟨⟨bound, below, ends, separated⟩, above⟩ := place
      rw [found.place]
      cases after with
      | nil => exact found
      | cons range after =>
          have inside := above range rfl
          obtain ⟨apart, occupied, later⟩ := separated
          rw [Cursor.remove, if_neg inside.not_ge]
          by_cases outside : stop ≤ range.first
          · simp only [if_pos outside]
            exact found
          · simp only [if_neg outside]
            generalize from_eq : max range.first start = first
            have trimmed : range.first ≤ first ∧ start ≤ first ∧ first < stop ∧
                first < range.second := by omega
            obtain ⟨begun, reached, within, inside⟩ := trimmed
            have near : bound ≤ first + 1 := below.trans (Nat.succ_le_succ reached)
            obtain ⟨steps, rfl⟩ : ∃ fewer, steps = fewer + 1 :=
              Nat.exists_eq_succ_of_ne_zero fun none => by
                rw [none] at enough
                simp at enough
            by_cases around : range.first < first ∧ stop < range.second
            · -- the part behind what is removed is a range of its own
              simp only [if_pos around]
              apply ((found.set _).next.insert _).prev.removeLoop_of_le near ends
              · exact ⟨apart, around.1, Nat.succ_le_of_lt within, around.2, later⟩
              · rw [Cursor.seek, if_pos (Nat.le_refl _), Cursor.seek,
                  if_neg (Nat.not_le.mpr (within.trans around.2))]
              · exact Nat.le_refl _
            · simp only [if_neg around]
              by_cases all : first = range.first ∧ range.second ≤ stop
              · simp only [if_pos all]
                have shorter := Cursor.length_seek_le first before after
                apply ih found.erase near ends (later.mono (by omega)) within
                simp only [List.length_cons] at enough
                omega
              · simp only [if_neg all]
                by_cases front : first = range.first
                · simp only [if_pos front]
                  have shorter : stop < range.second := by omega
                  apply (found.set _).removeLoop_of_le near ends
                  · have above : bound ≤ stop := by omega
                    exact ⟨above, shorter, later⟩
                  · rw [Cursor.seek, if_neg inside.not_ge]
                  · exact Nat.le_refl _
                · simp only [if_neg front]
                  have kept : range.first < first := by omega
                  have passes : ∀ after, Cursor.remove first stop before
                      (⟨range.first, first⟩ :: after) =
                        Cursor.remove first stop (⟨range.first, first⟩ :: before) after := by
                    intro after
                    rw [Cursor.remove, if_pos (Nat.le_refl _)]
                  rw [← passes]
                  have trimmed : Separated bound (⟨range.first, first⟩ :: after) :=
                    ⟨apart, kept, later.mono (Nat.succ_le_succ inside.le)⟩
                  apply ih (found.set _) near ends trimmed within
                  have shorter := Cursor.length_seek_le first (⟨range.first, first⟩ :: before) after
                  rw [Cursor.seek, if_pos (Nat.le_refl _)]
                  simp only [List.length_cons] at enough
                  omega

/-- **Removing indices at a place.** -/
theorem Stands.doRemove {start stop : Nat} (stands : Stands it ⟨before, after⟩)
    (below : bound ≤ start + 1) (ends : EndsBelow bound before) (separated : Separated bound after)
    (nonempty : start < stop) :
    Stands (it.doRemove start stop) (Cursor.doRemove ⟨before, after⟩ start stop) := by
  rw [Iterator.doRemove, stands.place]
  exact stands.removeLoop below ends separated nonempty
    (Nat.lt_succ_of_le (Cursor.length_seek_le start before after))

end Edits

end EventTalks.Realm

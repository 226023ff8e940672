import Mathlib.Algebra.Ring.Nat
import Mathlib.Data.List.Sort
import Mathlib.Tactic.Common

/-! # Ranges of indices

An index set is stored as ranges in order, none of them empty and none next to another.
Its operations find a place between the ranges and edit the ranges around it. The place is
a cursor: the ranges before it, the nearest first, and those from it on. What is proved of
an operation is which indices are covered after it, and that the ranges stay apart
(`EventTalks.Realm.Cursor.Sound`).
-/

namespace EventTalks.Realm

/-- A range of indices: the first one and the one after the last. -/
@[ext] structure Range where
  first : Nat
  second : Nat
deriving DecidableEq, Repr

namespace Range

/-- An index is in a range. -/
def Covers (range : Range) (index : Nat) : Prop := range.first ≤ index ∧ index < range.second

instance (range : Range) (index : Nat) : Decidable (range.Covers index) :=
  inferInstanceAs (Decidable (_ ∧ _))

/-- The number of indices in a range. -/
def size (range : Range) : Nat := range.second - range.first

/-- A range moved back by a distance. -/
def shift (distance : Nat) (range : Range) : Range :=
  ⟨range.first + distance, range.second + distance⟩

/-- A range moved forward by one. -/
def unshift (range : Range) : Range := ⟨range.first - 1, range.second - 1⟩

end Range

/-- An index is in one of some ranges. -/
def Covered (ranges : List Range) (index : Nat) : Prop := ∃ range ∈ ranges, range.Covers index

/-- Ranges in order from a bound on, none of them empty and none next to another. -/
def Separated (bound : Nat) : List Range → Prop
  | [] => True
  | range :: rest =>
      bound ≤ range.first ∧ range.first < range.second ∧ Separated (range.second + 1) rest

/-- Ranges, the last one first, that end before a bound. -/
def EndsBelow (bound : Nat) : List Range → Prop
  | [] => True
  | range :: rest => range.first < range.second ∧ range.second < bound ∧ EndsBelow range.first rest

section Ranges

variable {bound other index : Nat} {range : Range} {ranges before after : List Range}

/-- No range covers nothing. -/
@[simp] theorem covered_nil : ¬ Covered [] index := by simp [Covered]

/-- The first range covers an index, or the others do. -/
@[simp] theorem covered_cons :
    Covered (range :: ranges) index ↔
      (range.first ≤ index ∧ index < range.second) ∨ Covered ranges index := by
  simp [Covered, Range.Covers]

/-- Around a place, the ranges before it and those from it on cover an index. -/
theorem covered_reverseAux :
    Covered (before.reverseAux after) index ↔ Covered before index ∨ Covered after index := by
  simp [Covered, List.reverseAux_eq, or_and_right, exists_or]

/-- No ranges are apart. -/
theorem separated_nil (bound : Nat) : Separated bound [] := trivial

/-- No ranges end below any bound. -/
theorem endsBelow_nil (bound : Nat) : EndsBelow bound [] := trivial

/-- Ranges from a bound on are so from a lower one on. -/
theorem Separated.mono (separated : Separated bound ranges) (below : other ≤ bound) :
    Separated other ranges := by
  cases ranges with
  | nil => trivial
  | cons range rest => exact ⟨Nat.le_trans below separated.1, separated.2⟩

/-- What is covered is not below the bound. -/
theorem Separated.le_of_covered (separated : Separated bound ranges)
    (covered : Covered ranges index) : bound ≤ index := by
  induction ranges generalizing bound with
  | nil => exact absurd covered covered_nil
  | cons range rest ih =>
      obtain ⟨below, occupied, later⟩ := separated
      rcases covered_cons.mp covered with here | there
      · exact Nat.le_trans below here.1
      · have := ih later there
        omega

/-- Ranges that are apart are not empty. -/
theorem Separated.occupied (separated : Separated bound ranges) (among : range ∈ ranges) :
    range.first < range.second := by
  induction ranges generalizing bound with
  | nil => cases among
  | cons first rest ih =>
      obtain ⟨_, occupied, later⟩ := separated
      rcases List.mem_cons.mp among with rfl | after
      · exact occupied
      · exact ih later after

/-- What is covered is below the end of the last range. -/
theorem Separated.lt_of_getLast? (separated : Separated bound ranges)
    (ends : ranges.getLast? = some range) :
    bound < range.second ∧ ∀ index, Covered ranges index → index < range.second := by
  induction ranges generalizing bound with
  | nil => cases ends
  | cons first rest ih =>
      obtain ⟨below, occupied, later⟩ := separated
      cases rest with
      | nil =>
          obtain rfl := Option.some.inj ends
          refine ⟨Nat.lt_of_le_of_lt below occupied, fun index covered => ?_⟩
          exact ((covered_cons.mp covered).resolve_right covered_nil).2
      | cons second rest =>
          rw [List.getLast?_cons_cons] at ends
          obtain ⟨beyond, within⟩ := ih later ends
          refine ⟨by omega, fun index covered => ?_⟩
          rcases covered_cons.mp covered with here | there
          · omega
          · exact within index there

/-- Ranges that end below a bound end below a higher one. -/
theorem EndsBelow.mono (ends : EndsBelow bound ranges) (above : bound ≤ other) :
    EndsBelow other ranges := by
  cases ranges with
  | nil => trivial
  | cons range rest => exact ⟨ends.1, Nat.lt_of_lt_of_le ends.2.1 above, ends.2.2⟩

/-- A range behind others ends below the place after it. -/
theorem EndsBelow.cons (ends : EndsBelow bound before) (occupied : range.first < range.second)
    (apart : bound ≤ range.first) : EndsBelow (range.second + 1) (range :: before) :=
  ⟨occupied, Nat.lt_succ_self _, ends.mono apart⟩

/-- What is covered is below the bound, and not next to it. -/
theorem EndsBelow.lt_of_covered (ends : EndsBelow bound ranges) (covered : Covered ranges index) :
    index + 1 < bound := by
  induction ranges generalizing bound with
  | nil => exact absurd covered covered_nil
  | cons range rest ih =>
      obtain ⟨occupied, above, earlier⟩ := ends
      rcases covered_cons.mp covered with here | there
      · have := here.2
        omega
      · have := ih earlier there
        omega

/-- The ranges around a place are apart. -/
theorem separated_reverseAux (ends : EndsBelow bound before) (separated : Separated bound after) :
    Separated 0 (before.reverseAux after) := by
  induction before generalizing bound after with
  | nil => exact separated.mono (Nat.zero_le _)
  | cons range rest ih =>
      obtain ⟨occupied, above, earlier⟩ := ends
      exact ih earlier ⟨Nat.le_refl _, occupied, separated.mono above⟩

/-- Ranges that move back together stay apart. -/
theorem separated_map_shift (distance : Nat) (separated : Separated bound ranges) :
    Separated (bound + distance) (ranges.map (Range.shift distance)) := by
  induction ranges generalizing bound with
  | nil => trivial
  | cons range rest ih =>
      obtain ⟨below, occupied, later⟩ := separated
      refine ⟨Nat.add_le_add_right below _, Nat.add_lt_add_right occupied _, ?_⟩
      have moved := ih later
      rwa [Nat.add_right_comm] at moved

/-- Ranges that moved back cover what they covered, moved back. -/
theorem covered_map_shift {distance : Nat} :
    Covered (ranges.map (Range.shift distance)) index ↔
      distance ≤ index ∧ Covered ranges (index - distance) := by
  induction ranges with
  | nil => simp
  | cons range rest ih =>
      rw [List.map_cons, covered_cons, covered_cons, ih, Range.shift]
      by_cases reached : distance ≤ index
      · have first : range.first + distance ≤ index ↔ range.first ≤ index - distance := by omega
        have second : index < range.second + distance ↔ index - distance < range.second := by omega
        simp only [reached, first, second, true_and]
      · have before : ¬ range.first + distance ≤ index := by omega
        simp only [reached, before, false_and, or_self]

/-- Ranges that move forward by one together stay apart. -/
theorem separated_map_unshift (separated : Separated (bound + 1) ranges) :
    Separated bound (ranges.map Range.unshift) := by
  induction ranges generalizing bound with
  | nil => trivial
  | cons range rest ih =>
      obtain ⟨below, occupied, later⟩ := separated
      have moved := ih later
      refine ⟨Nat.le_sub_one_of_lt below, Nat.sub_lt_sub_right (by omega) occupied, moved.mono ?_⟩
      change range.second - 1 + 1 ≤ range.second
      omega

/-- Ranges that moved forward by one cover what they covered, moved forward. -/
theorem covered_map_unshift (separated : Separated (bound + 1) ranges) :
    Covered (ranges.map Range.unshift) index ↔ Covered ranges (index + 1) := by
  induction ranges generalizing bound with
  | nil => simp
  | cons range rest ih =>
      obtain ⟨below, occupied, later⟩ := separated
      rw [List.map_cons, covered_cons, covered_cons, ih later, Range.unshift]
      have first : range.first - 1 ≤ index ↔ range.first ≤ index + 1 := by omega
      have second : index < range.second - 1 ↔ index + 1 < range.second := by omega
      simp only [first, second]

end Ranges

/-- A place between ranges. -/
structure Cursor where
  before : List Range
  after : List Range

namespace Cursor

/-- The ranges around a cursor, in order. -/
def ranges (cursor : Cursor) : List Range := cursor.before.reverseAux cursor.after

/-- The ranges before a cursor end before those from it on. -/
def Sound (cursor : Cursor) : Prop :=
  ∃ bound, EndsBelow bound cursor.before ∧ Separated bound cursor.after

/-- The ranges around a cursor are apart. -/
theorem Sound.separated {cursor : Cursor} (sound : cursor.Sound) : Separated 0 cursor.ranges :=
  separated_reverseAux sound.choose_spec.1 sound.choose_spec.2

/-- A cursor stands where an index is, or would be put: the ranges before it end at the
index or below, and the one from it on ends above the index. -/
structure At (index : Nat) (cursor : Cursor) : Prop where
  placed : ∃ bound, bound ≤ index + 1 ∧ EndsBelow bound cursor.before ∧
    Separated bound cursor.after
  above : ∀ range ∈ cursor.after.head?, index < range.second

/-- A cursor at the place of an index has its ranges in order. -/
theorem At.sound {index : Nat} {cursor : Cursor} (place : cursor.At index) : cursor.Sound :=
  ⟨_, place.placed.choose_spec.2⟩

/-- Passes the ranges that end at an index or below. -/
def seek (index : Nat) (before : List Range) : List Range → Cursor
  | [] => ⟨before, []⟩
  | range :: rest =>
      if range.second ≤ index then seek index (range :: before) rest
      else ⟨before, range :: rest⟩

/-- The cursor moved to the range that contains an index, or the first one after it. -/
def find (cursor : Cursor) (index : Nat) : Cursor := seek index cursor.before cursor.after

/-- Passing ranges leaves them as they are. -/
theorem ranges_seek (index : Nat) (before after : List Range) :
    (seek index before after).ranges = before.reverseAux after := by
  induction after generalizing before with
  | nil => rfl
  | cons range rest ih =>
      rw [seek]
      by_cases passed : range.second ≤ index
      · rw [if_pos passed, ih]
        rfl
      · rw [if_neg passed]
        rfl

/-- To find an index leaves the ranges as they are. -/
@[simp] theorem ranges_find (cursor : Cursor) (index : Nat) :
    (cursor.find index).ranges = cursor.ranges := ranges_seek _ _ _

/-- Passing the ranges that end at an index or below leads to its place. -/
theorem at_seek {index bound : Nat} {before after : List Range} (below : bound ≤ index + 1)
    (ends : EndsBelow bound before) (separated : Separated bound after) :
    (seek index before after).At index := by
  induction after generalizing before bound with
  | nil => exact ⟨⟨bound, below, ends, trivial⟩, by simp [seek]⟩
  | cons range rest ih =>
      rw [seek]
      by_cases passed : range.second ≤ index
      · rw [if_pos passed]
        obtain ⟨first, occupied, later⟩ := separated
        exact ih (Nat.succ_le_succ passed)
          ⟨occupied, Nat.lt_succ_self _, ends.mono first⟩ later
      · rw [if_neg passed]
        refine ⟨⟨bound, below, ends, separated⟩, ?_⟩
        simpa using passed

/-- The cursor that is found stands at the place of the index. -/
theorem at_find {ranges : List Range} (separated : Separated 0 ranges) (index : Nat) :
    (find ⟨[], ranges⟩ index).At index :=
  at_seek (Nat.zero_le _) trivial separated

/-- Lengthens a range by one, and joins the next one when it gets there. -/
def grow (range : Range) : List Range → List Range
  | [] => [⟨range.first, range.second + 1⟩]
  | next :: rest =>
      if range.second + 1 = next.first then
        ⟨range.first, range.second + 1 + next.size⟩ :: rest
      else ⟨range.first, range.second + 1⟩ :: next :: rest

/-- A range of one index before others, or the first of them begun earlier. -/
def insertBefore (index : Nat) : List Range → List Range
  | [] => [⟨index, index + 1⟩]
  | next :: rest =>
      if next.first = index + 1 then ⟨next.first - 1, next.second⟩ :: rest
      else ⟨index, index + 1⟩ :: next :: rest

/-- Whether the range at a cursor contains an index. -/
def contains (cursor : Cursor) (index : Nat) : Bool :=
  cursor.after.head?.any fun range => range.first ≤ index ∧ index < range.second

/-- An index is added at its place. -/
def doAdd (cursor : Cursor) (index : Nat) : Cursor :=
  if cursor.contains index then cursor
  else match cursor.before with
    | [] => ⟨[], insertBefore index cursor.after⟩
    | previous :: earlier =>
        if previous.second = index then ⟨earlier, grow previous cursor.after⟩
        else ⟨previous :: earlier, insertBefore index cursor.after⟩

/-- An index is removed at its place, and the ranges after it move forward. -/
def doErase (cursor : Cursor) (index : Nat) : Cursor :=
  match cursor with
  | ⟨before, []⟩ => ⟨before, []⟩
  | ⟨before, range :: rest⟩ =>
      if range.first ≤ index then
        if range.first + 1 = range.second then ⟨before, rest.map Range.unshift⟩
        else ⟨⟨range.first, range.second - 1⟩ :: before, rest.map Range.unshift⟩
      else match before with
        | [] => ⟨[], (range :: rest).map Range.unshift⟩
        | previous :: earlier =>
            -- the gap before the range is closed
            if previous.second + 1 = range.first then
              ⟨⟨previous.first, previous.second + range.size⟩ :: earlier, rest.map Range.unshift⟩
            else ⟨previous :: earlier, (range :: rest).map Range.unshift⟩

/-- The cursor after the range it is at. -/
def next (cursor : Cursor) : Cursor :=
  match cursor with
  | ⟨before, []⟩ => ⟨before, []⟩
  | ⟨before, range :: rest⟩ => ⟨range :: before, rest⟩

/-- A number of indices from an index on are added, one after the other. -/
def addFrom (cursor : Cursor) (index : Nat) : Nat → Cursor
  | 0 => cursor
  | count + 1 => addFrom (cursor.doAdd index).next (index + 1) count

/-- A number of indices are inserted at a place: the ranges after it move back. -/
def insertAt (cursor : Cursor) (index count : Nat) : Cursor :=
  match cursor with
  | ⟨before, []⟩ => addFrom ⟨before, []⟩ index count
  | ⟨before, range :: rest⟩ =>
      if range.first ≤ index then
        ⟨before, ⟨range.first, range.second + count⟩ :: rest.map (Range.shift count)⟩
      else addFrom ⟨before, (range :: rest).map (Range.shift count)⟩ index count

/-- The ranges after a place move back, and one that contains it is split. -/
def shiftForInsertAt (cursor : Cursor) (index count : Nat) : Cursor :=
  match cursor with
  | ⟨before, []⟩ => ⟨before, []⟩
  | ⟨before, range :: rest⟩ =>
      if range.first + count < index + count then
        ⟨before, ⟨range.first + count - count, index⟩ ::
          ⟨index + count, range.second + count⟩ :: rest.map (Range.shift count)⟩
      else ⟨before, (range :: rest).map (Range.shift count)⟩

/-- The indices from one on, and below another, are removed without a shift. The ranges
that end before them are passed first, as they are again after every step. -/
def remove (start stop : Nat) (before : List Range) : List Range → Cursor
  | [] => ⟨before, []⟩
  | range :: rest =>
      if range.second ≤ start then remove start stop (range :: before) rest
      else if stop ≤ range.first then ⟨before, range :: rest⟩
      else
        let start := max range.first start
        if range.first < start ∧ stop < range.second then
          ⟨⟨range.first, start⟩ :: before, ⟨stop, range.second⟩ :: rest⟩
        else if start = range.first ∧ range.second ≤ stop then remove start stop before rest
        else if start = range.first then ⟨before, ⟨stop, range.second⟩ :: rest⟩
        else remove start stop (⟨range.first, start⟩ :: before) rest

/-- `remove` from a cursor on. -/
def doRemove (cursor : Cursor) (start stop : Nat) : Cursor :=
  remove start stop cursor.before cursor.after

/-- Passes the ranges that begin at a shifted index or below, and shifts it by their
indices. -/
def overtake (index shift : Nat) (before : List Range) : List Range → Nat × Cursor
  | [] => (shift, ⟨before, []⟩)
  | range :: rest =>
      if range.first ≤ index + shift then
        overtake index (shift + range.size) (range :: before) rest
      else (shift, ⟨before, range :: rest⟩)

section Place

variable {index other bound : Nat} {range : Range} {after : List Range} {cursor : Cursor}

/-- The ranges before a cursor cover an index, or those from it on do. -/
theorem covered_ranges :
    Covered cursor.ranges other ↔ Covered cursor.before other ∨ Covered cursor.after other :=
  covered_reverseAux

/-- At its place, an index is covered when the range there contains it. -/
theorem At.covered_iff_contains (place : cursor.At index) :
    Covered cursor.ranges index ↔ cursor.contains index = true := by
  obtain ⟨⟨bound, below, ends, separated⟩, above⟩ := place
  rw [covered_ranges, contains]
  have earlier : ¬ Covered cursor.before index := fun covered => by
    have := ends.lt_of_covered covered
    omega
  cases cases : cursor.after with
  | nil => simp [earlier]
  | cons range rest =>
      rw [cases] at separated above
      have later : ¬ Covered rest index := fun covered => by
        have := separated.2.2.le_of_covered covered
        have := above range rfl
        omega
      simp [earlier, later]

/-- The range at a cursor that does not contain an index begins after it. -/
theorem lt_of_not_contains {rest : List Range} {before : List Range}
    (outside : cursor.contains index = false) (place : cursor.At index)
    (split : cursor = ⟨before, range :: rest⟩) : index < range.first := by
  subst split
  have above := place.above range rfl
  simp only [contains, List.head?_cons, Option.any_some, decide_eq_false_iff_not] at outside
  omega

/-- A range that grows stays apart from those after it, or joins the next one. -/
theorem separated_grow (below : bound ≤ range.first) (occupied : range.first < range.second)
    (separated : Separated (range.second + 1) after) : Separated bound (grow range after) := by
  cases after with
  | nil => exact ⟨below, Nat.lt_succ_of_lt occupied, trivial⟩
  | cons next rest =>
      obtain ⟨apart, filled, later⟩ := separated
      rw [grow, Range.size]
      by_cases joined : range.second + 1 = next.first
      · rw [if_pos joined]
        refine ⟨below, ?_, ?_⟩
        · change range.first < range.second + 1 + (next.second - next.first)
          omega
        · rwa [joined, Nat.add_sub_cancel' filled.le]
      · rw [if_neg joined]
        refine ⟨below, Nat.lt_succ_of_lt occupied, ?_, filled, later⟩
        change range.second + 1 + 1 ≤ next.first
        omega

/-- A range that grows covers one more index. -/
theorem covered_grow (occupied : range.first < range.second)
    (separated : Separated (range.second + 1) after) :
    Covered (grow range after) other ↔
      other = range.second ∨ Covered (range :: after) other := by
  cases after with
  | nil =>
      rw [grow, covered_cons, covered_cons]
      simp only [covered_nil, or_false]
      omega
  | cons next rest =>
      obtain ⟨apart, filled, later⟩ := separated
      rw [grow, Range.size]
      by_cases joined : range.second + 1 = next.first
      · rw [if_pos joined, joined, Nat.add_sub_cancel' filled.le, covered_cons, covered_cons,
          covered_cons, ← or_assoc, ← or_assoc]
        refine or_congr_left ?_
        change range.first ≤ other ∧ other < next.second ↔ _
        omega
      · rw [if_neg joined, covered_cons,
          @covered_cons other range, ← or_assoc]
        refine or_congr_left ?_
        change range.first ≤ other ∧ other < range.second + 1 ↔ _
        omega

/-- An index put before ranges is apart from them, or joins the first one. -/
theorem separated_insertBefore (below : bound ≤ index) (separated : Separated bound after)
    (outside : ∀ range ∈ after.head?, index < range.first) :
    Separated bound (insertBefore index after) := by
  cases after with
  | nil => exact ⟨below, Nat.lt_succ_self _, trivial⟩
  | cons next rest =>
      obtain ⟨apart, filled, later⟩ := separated
      have beyond := outside next rfl
      rw [insertBefore]
      by_cases joined : next.first = index + 1
      · rw [if_pos joined]
        refine ⟨?_, ?_, later⟩
        · change bound ≤ next.first - 1
          omega
        · change next.first - 1 < next.second
          omega
      · rw [if_neg joined]
        refine ⟨below, Nat.lt_succ_self _, ?_, filled, later⟩
        change index + 1 + 1 ≤ next.first
        omega

/-- An index put before ranges is covered, and no other one is new. -/
theorem covered_insertBefore (separated : Separated bound after)
    (outside : ∀ range ∈ after.head?, index < range.first) :
    Covered (insertBefore index after) other ↔ other = index ∨ Covered after other := by
  cases after with
  | nil =>
      rw [insertBefore, covered_cons]
      simp only [covered_nil, or_false]
      omega
  | cons next rest =>
      obtain ⟨apart, filled, later⟩ := separated
      have beyond := outside next rfl
      rw [insertBefore]
      by_cases joined : next.first = index + 1
      · rw [if_pos joined, covered_cons, covered_cons, ← or_assoc]
        refine or_congr_left ?_
        change next.first - 1 ≤ other ∧ other < next.second ↔ _
        omega
      · rw [if_neg joined, covered_cons]
        refine or_congr_left ?_
        change index ≤ other ∧ other < index + 1 ↔ _
        omega

/-- **Adding an index at its place** adds just that index. -/
theorem At.doAdd (place : cursor.At index) :
    (∃ bound, bound ≤ index + 1 ∧ EndsBelow bound (cursor.doAdd index).before ∧
      Separated bound (cursor.doAdd index).after) ∧
    ∀ other, Covered (cursor.doAdd index).ranges other ↔
      other = index ∨ Covered cursor.ranges other := by
  have contained := place.covered_iff_contains
  obtain ⟨before, after⟩ := cursor
  rw [Cursor.doAdd]
  by_cases inside : contains ⟨before, after⟩ index = true
  · rw [if_pos inside]
    refine ⟨place.placed, fun other => ⟨Or.inr, ?_⟩⟩
    rintro (rfl | covered)
    · exact contained.mpr inside
    · exact covered
  · rw [if_neg inside]
    have outside : ∀ range ∈ after.head?, index < range.first := by
      intro range first
      obtain ⟨rest, rfl⟩ := List.head?_eq_some_iff.mp first
      exact lt_of_not_contains (Bool.eq_false_of_not_eq_true inside) place rfl
    obtain ⟨bound, below, ends, separated⟩ := place.placed
    cases before with
    | nil =>
        refine ⟨⟨0, Nat.zero_le _, trivial, ?_⟩, fun other => ?_⟩
        · exact separated_insertBefore (Nat.zero_le _) (separated.mono (Nat.zero_le _)) outside
        · rw [covered_ranges, covered_ranges, covered_insertBefore separated outside]
          simp only [covered_nil, false_or]
    | cons previous earlier =>
        obtain ⟨occupied, apart, ending⟩ := ends
        by_cases touching : previous.second = index
        · simp only [if_pos touching]
          have later := separated.mono apart
          refine ⟨⟨previous.first, by omega, ending, ?_⟩, fun other => ?_⟩
          · exact separated_grow (Nat.le_refl _) occupied later
          · rw [covered_ranges, covered_ranges, covered_grow occupied later, covered_cons,
              covered_cons, touching]
            simp only [or_assoc, or_left_comm]
        · simp only [if_neg touching]
          have later := separated.mono apart
          refine ⟨⟨previous.second + 1, by omega, ⟨occupied, Nat.lt_succ_self _, ending⟩, ?_⟩,
            fun other => ?_⟩
          · exact separated_insertBefore (by omega) later outside
          · rw [covered_ranges, covered_ranges, covered_insertBefore later outside]
            exact or_left_comm

/-- The ranges are in order after an index was added at its place. -/
theorem At.sound_doAdd (place : cursor.At index) : (cursor.doAdd index).Sound :=
  ⟨_, place.doAdd.1.choose_spec.2⟩

/-- **Removing an index at its place** moves the ones after it forward. -/
theorem At.doErase (place : cursor.At index) :
    (cursor.doErase index).Sound ∧ ∀ other, Covered (cursor.doErase index).ranges other ↔
      if other < index then Covered cursor.ranges other else Covered cursor.ranges (other + 1) := by
  obtain ⟨⟨bound, below, ends, separated⟩, above⟩ := place
  obtain ⟨before, after⟩ := cursor
  have earlier : ∀ other, Covered before other → other < index := fun other covered => by
    have := ends.lt_of_covered covered
    omega
  simp only [covered_ranges]
  cases after with
  | nil =>
      refine ⟨⟨bound, ends, trivial⟩, fun other => ?_⟩
      simp only [Cursor.doErase, covered_nil, or_false]
      grind
  | cons range rest =>
      obtain ⟨apart, occupied, later⟩ := separated
      have inside := above range rfl
      have beyond : ∀ other, Covered rest other → range.second < other := fun _ covered =>
        later.le_of_covered covered
      have moved := separated_map_unshift later
      have shifted : ∀ other, Covered (rest.map Range.unshift) other ↔ Covered rest (other + 1) :=
        fun _ => covered_map_unshift later
      rw [Cursor.doErase.eq_def]
      by_cases contains : range.first ≤ index
      · simp only [if_pos contains]
        by_cases single : range.first + 1 = range.second
        · simp only [if_pos single]
          refine ⟨⟨bound, ends, moved.mono (by omega)⟩, fun other => ?_⟩
          rw [shifted, covered_cons, covered_cons]
          grind
        · simp only [if_neg single]
          refine ⟨⟨range.second, ⟨?_, ?_, ends.mono apart⟩, moved⟩, fun other => ?_⟩
          · change range.first < range.second - 1
            omega
          · exact Nat.sub_lt (by omega) Nat.one_pos
          · rw [shifted, covered_cons, covered_cons, covered_cons]
            grind
      · simp only [if_neg contains]
        have above' : Separated (range.first - 1 + 1) (range :: rest) :=
          ⟨by omega, occupied, later⟩
        have all : ∀ other, Covered ((range :: rest).map Range.unshift) other ↔
            Covered (range :: rest) (other + 1) := fun _ =>
          covered_map_unshift above'
        have whole : Separated (range.first - 1) ((range :: rest).map Range.unshift) :=
          separated_map_unshift above'
        cases before with
        | nil =>
            refine ⟨⟨0, trivial, whole.mono (Nat.zero_le _)⟩, fun other => ?_⟩
            rw [all, covered_cons, covered_cons]
            simp only [covered_nil, false_or]
            grind
        | cons previous initial =>
            obtain ⟨filled, gap, ending⟩ := ends
            by_cases closed : previous.second + 1 = range.first
            · simp only [if_pos closed]
              have size : previous.second + range.size = range.second - 1 := by
                rw [Range.size]
                omega
              rw [size]
              refine ⟨⟨range.second, ⟨?_, ?_, ending⟩, moved⟩, fun other => ?_⟩
              · change previous.first < range.second - 1
                omega
              · exact Nat.sub_lt (by omega) Nat.one_pos
              · have reached : previous.second ≤ index := by omega
                rw [shifted]
                simp only [covered_cons] at earlier ⊢
                grind
            · simp only [if_neg closed]
              refine ⟨⟨previous.second + 1, ⟨filled, Nat.lt_succ_self _, ending⟩, ?_⟩,
                fun other => ?_⟩
              · exact whole.mono (by omega)
              · rw [all]
                simp only [covered_cons] at earlier ⊢
                grind

/-- Adding an index before a gap makes one range longer, or a new one. -/
theorem doAdd_of_gap {before after : List Range} (ends : EndsBelow bound before)
    (below : bound ≤ index + 1) (gap : ∀ range ∈ after.head?, index + 1 < range.first) :
    EndsBelow (index + 2) (doAdd ⟨before, after⟩ index).next.before ∧
      (doAdd ⟨before, after⟩ index).next.after = after ∧
      ∀ other, Covered (doAdd ⟨before, after⟩ index).next.before other ↔
        other = index ∨ Covered before other := by
  have outside : contains ⟨before, after⟩ index = false := by
    cases after with
    | nil => rfl
    | cons range rest =>
        have := gap range rfl
        simp only [contains, List.head?_cons, Option.any_some, decide_eq_false_iff_not]
        omega
  have apart : insertBefore index after = ⟨index, index + 1⟩ :: after := by
    cases after with
    | nil => rfl
    | cons range rest =>
        have := gap range rfl
        rw [insertBefore, if_neg (by omega)]
  rw [doAdd, outside, if_neg Bool.false_ne_true]
  cases before with
  | nil =>
      simp only [apart, next]
      refine ⟨⟨Nat.lt_succ_self _, Nat.lt_succ_self _, trivial⟩, trivial, fun other => ?_⟩
      simp only [covered_cons, covered_nil, or_false]
      omega
  | cons previous earlier =>
      obtain ⟨occupied, ending, initial⟩ := ends
      by_cases touching : previous.second = index
      · have grown : grow previous after = ⟨previous.first, previous.second + 1⟩ :: after := by
          cases after with
          | nil => rfl
          | cons range rest =>
              have := gap range rfl
              rw [grow, if_neg (by omega)]
        simp only [if_pos touching, grown, next]
        refine ⟨⟨?_, ?_, initial⟩, trivial, fun other => ?_⟩
        · exact Nat.lt_succ_of_lt occupied
        · exact Nat.succ_lt_succ (Nat.lt_succ_of_le touching.le)
        · simp only [covered_cons, ← or_assoc]
          refine or_congr_left ?_
          omega
      · simp only [if_neg touching, apart, next]
        refine ⟨⟨Nat.lt_succ_self _, Nat.lt_succ_self _, occupied, ?_, initial⟩, trivial,
          fun other => ?_⟩
        · change previous.second < index
          omega
        · rw [covered_cons]
          dsimp only
          refine or_congr_left ?_
          omega

/-- **Adding indices before a gap** adds just these. -/
theorem addFrom_of_gap {before after : List Range} {count : Nat} (ends : EndsBelow bound before)
    (below : bound ≤ index + 1) (separated : Separated (index + count + 1) after) :
    (addFrom ⟨before, after⟩ index count).Sound ∧
      ∀ other, Covered (addFrom ⟨before, after⟩ index count).ranges other ↔
        (index ≤ other ∧ other < index + count) ∨ Covered before other ∨ Covered after other := by
  induction count generalizing before index bound with
  | zero =>
      refine ⟨⟨bound, ends, separated.mono below⟩, fun other => ?_⟩
      rw [addFrom, covered_ranges]
      exact (or_iff_right (by omega)).symm
  | succ count ih =>
      have gap : ∀ range ∈ after.head?, index + 1 < range.first := by
        intro range first
        obtain ⟨rest, rfl⟩ := List.head?_eq_some_iff.mp first
        have := separated.1
        omega
      obtain ⟨ending, same, covers⟩ := doAdd_of_gap ends below gap
      have later : Separated (index + 1 + count + 1) after := by
        rwa [Nat.add_right_comm index 1 count]
      have added := ih ending (Nat.le_refl _) later
      have moved : (doAdd ⟨before, after⟩ index).next =
          ⟨(doAdd ⟨before, after⟩ index).next.before, after⟩ := congrArg (Cursor.mk _) same
      rw [addFrom, moved]
      refine ⟨added.1, fun other => ?_⟩
      rw [added.2, covers, or_assoc, ← or_assoc]
      refine or_congr_left ?_
      omega

/-- Ranges from a bound on that moved back cover nothing before the moved bound. -/
theorem covered_map_shift_iff {ranges : List Range} (separated : Separated bound ranges)
    {distance : Nat} :
    Covered (ranges.map (Range.shift distance)) other ↔
      bound + distance ≤ other ∧ Covered ranges (other - distance) := by
  rw [covered_map_shift]
  constructor
  · intro moved
    have := separated.le_of_covered moved.2
    exact ⟨by omega, moved.2⟩
  · intro moved
    exact ⟨by omega, moved.2⟩

/-- **Inserting indices at a place** moves the ones after it back. -/
theorem At.insertAt (place : cursor.At index) (count : Nat) :
    (cursor.insertAt index count).Sound ∧
      ∀ other, Covered (cursor.insertAt index count).ranges other ↔
        if other < index then Covered cursor.ranges other
        else other < index + count ∨ Covered cursor.ranges (other - count) := by
  obtain ⟨⟨bound, below, ends, separated⟩, above⟩ := place
  obtain ⟨before, after⟩ := cursor
  have earlier : ∀ other, Covered before other → other < index := fun other covered => by
    have := ends.lt_of_covered covered
    omega
  simp only [covered_ranges]
  cases after with
  | nil =>
      obtain ⟨sound, covers⟩ := addFrom_of_gap ends below (separated_nil (index + count + 1))
      refine ⟨sound, fun other => ?_⟩
      rw [Cursor.insertAt.eq_def]
      simp only
      rw [← covered_ranges, covers]
      simp only [covered_nil, or_false]
      grind
  | cons range rest =>
      obtain ⟨apart, occupied, later⟩ := separated
      have inside := above range rfl
      have beyond : ∀ other, Covered rest other → range.second < other := fun _ covered =>
        later.le_of_covered covered
      rw [Cursor.insertAt.eq_def]
      by_cases contains : range.first ≤ index
      · simp only [if_pos contains]
        refine ⟨⟨bound, ends, apart, ?_, ?_⟩, fun other => ?_⟩
        · exact Nat.lt_add_right _ occupied
        · have moved := separated_map_shift count later
          rwa [Nat.add_right_comm] at moved
        · simp only [covered_cons, covered_map_shift_iff later]
          grind
      · simp only [if_neg contains]
        have whole : Separated (index + 1) (range :: rest) := ⟨by omega, occupied, later⟩
        have moved := separated_map_shift count whole
        rw [Nat.add_right_comm] at moved
        obtain ⟨sound, covers⟩ := addFrom_of_gap ends below moved
        refine ⟨sound, fun other => ?_⟩
        have first : ∀ other, Covered (range :: rest) other → index < other := fun _ covered =>
          whole.le_of_covered covered
        rw [← covered_ranges, covers, covered_map_shift_iff whole]
        grind

/-- **Making room at a place** moves the indices after it back. -/
theorem At.shiftForInsertAt (place : cursor.At index) {count : Nat} (positive : 0 < count) :
    (cursor.shiftForInsertAt index count).Sound ∧
      ∀ other, Covered (cursor.shiftForInsertAt index count).ranges other ↔
        if other < index then Covered cursor.ranges other
        else index + count ≤ other ∧ Covered cursor.ranges (other - count) := by
  obtain ⟨⟨bound, below, ends, separated⟩, above⟩ := place
  obtain ⟨before, after⟩ := cursor
  have earlier : ∀ other, Covered before other → other < index := fun other covered => by
    have := ends.lt_of_covered covered
    omega
  simp only [covered_ranges]
  cases after with
  | nil =>
      refine ⟨⟨bound, ends, trivial⟩, fun other => ?_⟩
      simp only [Cursor.shiftForInsertAt, covered_nil, or_false]
      grind
  | cons range rest =>
      obtain ⟨apart, occupied, later⟩ := separated
      have inside := above range rfl
      have beyond : ∀ other, Covered rest other → range.second < other := fun _ covered =>
        later.le_of_covered covered
      have moved := separated_map_shift count later
      rw [Cursor.shiftForInsertAt.eq_def]
      by_cases contains : range.first + count < index + count
      · simp only [if_pos contains, Nat.add_sub_cancel]
        refine ⟨⟨bound, ends, apart, ?_, ?_, ?_, ?_⟩, fun other => ?_⟩
        · exact Nat.lt_of_add_lt_add_right contains
        · exact Nat.add_le_add_left positive _
        · exact Nat.add_lt_add_right inside _
        · rwa [Nat.add_right_comm] at moved
        · simp only [covered_cons, covered_map_shift_iff later]
          grind
      · simp only [if_neg contains]
        have whole : Separated bound (range :: rest) := ⟨apart, occupied, later⟩
        have start : Separated range.first (range :: rest) := ⟨Nat.le_refl _, occupied, later⟩
        refine ⟨⟨bound, ends, (separated_map_shift count whole).mono (Nat.le_add_right _ _)⟩,
          fun other => ?_⟩
        have first : ∀ other, Covered (range :: rest) other → range.first ≤ other :=
          fun _ covered =>
          start.le_of_covered covered
        rw [covered_map_shift_iff start]
        grind

/-- **Removing indices** removes just these, and the cursor stands after them. -/
theorem remove_spec {before after : List Range} {start stop : Nat} (ends : EndsBelow bound before)
    (below : bound ≤ start + 1) (separated : Separated bound after) (nonempty : start < stop) :
    (∃ bound, bound ≤ stop + 1 ∧ EndsBelow bound (remove start stop before after).before ∧
      Separated bound (remove start stop before after).after) ∧
    ∀ other, Covered (remove start stop before after).ranges other ↔
      (Covered before other ∨ Covered after other) ∧ ¬ (start ≤ other ∧ other < stop) := by
  induction after generalizing before start bound with
  | nil =>
      have earlier : ∀ other, Covered before other → other < start := fun other covered => by
        have := ends.lt_of_covered covered
        omega
      refine ⟨⟨bound, by omega, ends, trivial⟩, fun other => ?_⟩
      simp only [remove, covered_ranges, covered_nil, or_false]
      grind
  | cons range rest ih =>
      have earlier : ∀ other, Covered before other → other < start := fun other covered => by
        have := ends.lt_of_covered covered
        omega
      obtain ⟨apart, occupied, later⟩ := separated
      have beyond : ∀ other, Covered rest other → range.second < other := fun _ covered =>
        later.le_of_covered covered
      rw [remove]
      by_cases passed : range.second ≤ start
      · rw [if_pos passed]
        obtain ⟨placed, covers⟩ :=
          ih (ends.cons occupied apart) (Nat.succ_le_succ passed) later nonempty
        refine ⟨placed, fun other => ?_⟩
        rw [covers, covered_cons, covered_cons]
        grind
      · rw [if_neg passed]
        by_cases outside : stop ≤ range.first
        · rw [if_pos outside]
          refine ⟨⟨bound, by omega, ends, apart, occupied, later⟩, fun other => ?_⟩
          rw [covered_ranges]
          simp only [covered_cons]
          grind
        · rw [if_neg outside]
          generalize found : max range.first start = first
          have trimmed : range.first ≤ first ∧ start ≤ first ∧ first < stop ∧
              first < range.second ∧ (first = range.first ∨ first = start) := by omega
          obtain ⟨above, reached, within, inside, either⟩ := trimmed
          by_cases around : range.first < first ∧ stop < range.second
          · rw [if_pos around]
            refine ⟨⟨stop, Nat.le_succ _, ⟨around.1, within, ends.mono apart⟩, Nat.le_refl _,
              around.2, later⟩, fun other => ?_⟩
            simp only [covered_ranges, covered_cons]
            grind
          · rw [if_neg around]
            by_cases all : first = range.first ∧ range.second ≤ stop
            · rw [if_pos all]
              obtain ⟨placed, covers⟩ := ih ends (by omega) (later.mono (by omega)) within
              refine ⟨placed, fun other => ?_⟩
              rw [covers, covered_cons]
              grind
            · rw [if_neg all]
              by_cases front : first = range.first
              · rw [if_pos front]
                refine ⟨⟨bound, by omega, ends, ?_, ?_, later⟩, fun other => ?_⟩
                · change bound ≤ stop
                  omega
                · change stop < range.second
                  omega
                · simp only [covered_ranges, covered_cons]
                  grind
              · rw [if_neg front]
                have longer : range.first < first := by omega
                have ends' : EndsBelow (first + 1) (⟨range.first, first⟩ :: before) :=
                  ends.cons longer apart
                obtain ⟨placed, covers⟩ := ih ends' (Nat.le_refl _) (later.mono (by omega)) within
                refine ⟨placed, fun other => ?_⟩
                rw [covers]
                simp only [covered_cons]
                grind

/-- Going on from a cursor passes what going on from there passes. -/
theorem overtake_append (index shift : Nat) (before earlier after : List Range) :
    overtake index shift (before ++ earlier) after =
      ((overtake index shift before after).1,
        ⟨(overtake index shift before after).2.before ++ earlier,
          (overtake index shift before after).2.after⟩) := by
  induction after generalizing shift before with
  | nil => rfl
  | cons range rest ih =>
      rw [overtake, overtake]
      by_cases passed : range.first ≤ index + shift
      · rw [if_pos passed, if_pos passed]
        exact ih (shift + range.size) (range :: before)
      · rw [if_neg passed, if_neg passed]

/-- **The cursor stands where a shifted index is**, which no range contains. -/
theorem overtake_spec {before after : List Range} {shift : Nat} (ends : EndsBelow bound before)
    (below : bound ≤ index + shift + 1) (separated : Separated bound after) :
    (overtake index shift before after).2.ranges = before.reverseAux after ∧
      (overtake index shift before after).2.At (index + (overtake index shift before after).1) ∧
      (overtake index shift before after).2.contains
        (index + (overtake index shift before after).1) = false ∧
      (overtake index shift before after).1 + (before.map Range.size).sum =
        shift + ((overtake index shift before after).2.before.map Range.size).sum := by
  induction after generalizing before shift bound with
  | nil => exact ⟨rfl, ⟨⟨bound, below, ends, trivial⟩, by simp [overtake]⟩, rfl, rfl⟩
  | cons range rest ih =>
      obtain ⟨apart, occupied, later⟩ := separated
      rw [overtake]
      by_cases passed : range.first ≤ index + shift
      · rw [if_pos passed]
        have reached : range.second + 1 ≤ index + (shift + range.size) + 1 := by
          rw [Range.size]
          omega
        obtain ⟨same, place, outside, total⟩ := ih (ends.cons occupied apart) reached later
        refine ⟨same, place, outside, ?_⟩
        rw [List.map_cons, List.sum_cons] at total
        omega
      · rw [if_neg passed]
        refine ⟨rfl, ⟨⟨bound, below, ends, apart, occupied, later⟩, ?_⟩, ?_, rfl⟩
        · intro first same
          obtain rfl := Option.some.inj same
          omega
        · simp only [contains, List.head?_cons, Option.any_some, decide_eq_false_iff_not]
          omega

end Place

end Cursor

end EventTalks.Realm

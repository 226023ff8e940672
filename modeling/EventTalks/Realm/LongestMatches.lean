import EventTalks.Realm.RangeBuilder
import Mathlib.Data.List.TakeWhile

/-! # The longest matches of two arrays of rows

Two arrays of the same rows are aligned block by block: the longest block that both have in
a window is found (`EventTalks.Realm.LongestCommonSubsequenceCalculator.findLongestMatch`),
then the longest ones before it and after it. The blocks that are found come in order and
are blocks of both arrays
(`EventTalks.Realm.LongestCommonSubsequenceCalculator.aligned_longestMatches`), and no block
of a window is longer than the one that is found there
(`EventTalks.Realm.LongestCommonSubsequenceCalculator.size_le_findLongestMatch`).
-/

namespace EventTalks.Realm

namespace LongestCommonSubsequenceCalculator

/-- A pair of an index in the table and an index in the table view. -/
structure Row where
  rowIndex : Nat
  tvIndex : Nat

/-- A block of both arrays: where it begins in each, how long it is, and how many of its rows
were modified, if that has been counted. -/
structure Match where
  i : Nat
  j : Nat
  size : Nat
  modified : Option Nat

/-- The length of a matching block that ends at an index of the second array. -/
structure Length where
  j : Nat
  len : Nat

end LongestCommonSubsequenceCalculator

open LongestCommonSubsequenceCalculator

/-- Two arrays of rows that are aligned: the first one in the order of its table view, and
the second one in the order of the table. -/
structure LongestCommonSubsequenceCalculator where
  modified : IndexSet
  a : List Row
  b : List Row

namespace LongestCommonSubsequenceCalculator

/-- The length of the block that ends at an index of the second array, when the blocks that
end before it are known. -/
def length (prev : List Length) (j : Nat) : Nat :=
  match prev.find? fun pair => pair.j + 1 = j with
  | some pair => pair.len + 1
  | none => 1

/-- Where a row is in a window of the second array. -/
def forEachBMatch (b : List Row) (rowIndex begin2 end2 : Nat) : List Nat :=
  let found := (b.dropWhile fun row => row.rowIndex < rowIndex).takeWhile fun row =>
    row.rowIndex = rowIndex
  ((found.map Row.tvIndex).takeWhile fun j => j < end2).filter fun j => begin2 ≤ j

/-- Where the modified rows of the best block are counted from, in machine arithmetic. -/
def countStart (j size : Nat) : Nat := (j + 2 ^ 64 + 1 - size) % 2 ^ 64

/-- A longer block is better, and so is one of the same size with fewer modified rows. -/
def better (modified : IndexSet) (best : Match) (i j size : Nat) : Match :=
  if size > best.size then ⟨i + 1 - size, j + 1 - size, size, none⟩
  else if size = best.size then
    let known := best.modified.getD (modified.count (countStart best.j size) (best.j + 1))
    let count := modified.count (j + 1 - size) (j + 1)
    if count < known then ⟨i + 1 - size, j + 1 - size, size, some count⟩
    else { best with modified := some known }
  else best

/-- The places of one row of the first array are looked at. -/
def visit (modified : IndexSet) (prev : List Length) (i : Nat) :
    Match → List Length → List Nat → Match × List Length
  | best, cur, [] => (best, cur)
  | best, cur, j :: rest =>
      let size := length prev j
      visit modified prev i (better modified best i j size) (cur ++ [⟨j, size⟩]) rest

/-- The rows of a window of the first array are looked at. -/
def scan (modified : IndexSet) (b : List Row) (begin2 end2 : Nat) :
    Nat → Match → List Length → List Row → Match
  | _, best, _, [] => best
  | i, best, prev, row :: rest =>
      let (best, cur) :=
        visit modified prev i best [] (forEachBMatch b row.rowIndex begin2 end2)
      scan modified b begin2 end2 (i + 1) best cur rest

/-- The longest block in a window of both arrays. -/
def findLongestMatch (calculator : LongestCommonSubsequenceCalculator)
    (begin1 end1 begin2 end2 : Nat) : Match :=
  scan calculator.modified calculator.b begin2 end2 begin1 ⟨begin1, begin2, 0, some 0⟩ []
    ((calculator.a.take end1).drop begin1)

/-! ## Blocks -/

/-- A block in a window of both arrays: from a place in each on, their rows are related. -/
structure Block (rel : Nat → Nat → Prop) (begin1 end1 begin2 end2 i j size : Nat) : Prop where
  begun1 : begin1 ≤ i
  ended1 : i + size ≤ end1
  begun2 : begin2 ≤ j
  ended2 : j + size ≤ end2
  same : ∀ offset < size, rel (i + offset) (j + offset)

/-- A block that ends before an index of the first array, at one of the second array. -/
structure EndsAt (rel : Nat → Nat → Prop) (begin1 begin2 end2 i j size : Nat) : Prop where
  nonempty : 0 < size
  inside1 : size ≤ i
  inside2 : size ≤ j + 1
  block : Block rel begin1 i begin2 end2 (i - size) (j + 1 - size) size

section Blocks

variable {rel : Nat → Nat → Prop} {begin1 end1 begin2 end2 i j size : Nat}

/-- A block in a window is one in a wider window. -/
theorem Block.mono {wider1 : Nat} (block : Block rel begin1 end1 begin2 end2 i j size)
    (wider : end1 ≤ wider1) : Block rel begin1 wider1 begin2 end2 i j size :=
  { block with ended1 := block.ended1.trans wider }

/-- Two rows that are the same are a block of one. -/
theorem endsAt_one (begun1 : begin1 ≤ i) (begun2 : begin2 ≤ j) (ended2 : j < end2)
    (same : rel i j) : EndsAt rel begin1 begin2 end2 (i + 1) j 1 where
  nonempty := Nat.one_pos
  inside1 := Nat.le_add_left 1 i
  inside2 := Nat.le_add_left 1 j
  block := by
    refine ⟨begun1, Nat.le_refl _, begun2, ended2, fun offset first => ?_⟩
    obtain rfl : offset = 0 := by omega
    exact same

/-- A block that ends before two rows that are the same is longer with them. -/
theorem EndsAt.extend (ends : EndsAt rel begin1 begin2 end2 i j size) (ended2 : j + 1 < end2)
    (same : rel i (j + 1)) : EndsAt rel begin1 begin2 end2 (i + 1) (j + 1) (size + 1) := by
  obtain ⟨nonempty, inside1, inside2, block⟩ := ends
  refine ⟨Nat.succ_pos size, Nat.succ_le_succ inside1, Nat.succ_le_succ inside2, ?_⟩
  rw [Nat.add_sub_add_right, Nat.add_sub_add_right]
  refine ⟨block.begun1, by omega, block.begun2, by omega, fun offset before => ?_⟩
  by_cases last : offset = size
  · rwa [last, Nat.sub_add_cancel inside1, Nat.sub_add_cancel inside2]
  · exact block.same offset (by omega)

/-- What is left of a block without its last row ends before it. -/
theorem EndsAt.shrink (ends : EndsAt rel begin1 begin2 end2 (i + 1) j (size + 1)) :
    rel i j ∧ begin2 ≤ j ∧ j < end2 ∧
      (0 < size → 0 < j ∧ EndsAt rel begin1 begin2 end2 i (j - 1) size) := by
  obtain ⟨_, inside1, inside2, block⟩ := ends
  rw [Nat.add_sub_add_right, Nat.add_sub_add_right] at block
  have last := block.same size (Nat.lt_succ_self size)
  have := block.begun2
  have := block.ended2
  rw [Nat.sub_add_cancel (by omega), Nat.sub_add_cancel (by omega)] at last
  refine ⟨last, by omega, by omega, fun nonempty => ⟨by omega, nonempty, by omega, by omega, ?_⟩⟩
  rw [Nat.sub_add_cancel (by omega)]
  exact ⟨block.begun1, by omega, block.begun2, by omega,
    fun offset before => block.same offset (Nat.lt_succ_of_lt before)⟩

end Blocks

/-! ## Looking at one row -/

section Visit

variable {modified : IndexSet} {prev cur : List Length} {best : Match} {i : Nat} {js : List Nat}

/-- The lengths that a row leaves. -/
theorem visit_snd : (visit modified prev i best cur js).2 =
    cur ++ js.map fun j => ⟨j, length prev j⟩ := by
  induction js generalizing best cur with
  | nil => simp [visit]
  | cons j rest ih => rw [visit, ih, List.map_cons, List.append_assoc, List.singleton_append]

/-- The better block is one of the two. -/
theorem better_cases {size j : Nat} {holds : Nat → Nat → Nat → Prop}
    (before : holds best.i best.j best.size) (here : holds (i + 1 - size) (j + 1 - size) size) :
    holds (better modified best i j size).i (better modified best i j size).j
      (better modified best i j size).size := by
  rw [better]
  split
  · exact here
  · split
    · dsimp only
      split
      · exact here
      · exact before
    · exact before

/-- What holds of the best block and of every block that ends here holds of the better one. -/
theorem visit_best {holds : Nat → Nat → Nat → Prop} (before : holds best.i best.j best.size)
    (here : ∀ j ∈ js, holds (i + 1 - length prev j) (j + 1 - length prev j) (length prev j)) :
    let after := (visit modified prev i best cur js).1
    holds after.i after.j after.size := by
  induction js generalizing best cur with
  | nil => exact before
  | cons j rest ih =>
      obtain ⟨first, others⟩ := List.forall_mem_cons.mp here
      exact ih (better_cases before first) others

/-- The best block only gets longer, and is at least as long as those that end here. -/
theorem size_le_visit : best.size ≤ (visit modified prev i best cur js).1.size ∧
    ∀ j ∈ js, length prev j ≤ (visit modified prev i best cur js).1.size := by
  induction js generalizing best cur with
  | nil => exact ⟨Nat.le_refl _, nofun⟩
  | cons j rest ih =>
      rw [visit]
      obtain ⟨kept, others⟩ := @ih (cur ++ [⟨j, length prev j⟩])
        (better modified best i j (length prev j))
      have grows : best.size ≤ (better modified best i j (length prev j)).size ∧
          length prev j ≤ (better modified best i j (length prev j)).size := by
        rw [better]
        grind
      refine ⟨grows.1.trans kept, List.forall_mem_cons.mpr ⟨grows.2.trans kept, others⟩⟩

end Visit

/-! ## Looking at all rows -/

section Scan

variable {rel : Nat → Nat → Prop} {modified : IndexSet} {b : List Row}
  {begin1 end1 begin2 end2 i : Nat} {prev : List Length} {best : Match} {rest : List Row}

/-- The lengths of the blocks that end before an index are those of blocks. -/
def Known (rel : Nat → Nat → Prop) (begin1 begin2 end2 i : Nat) (prev : List Length) : Prop :=
  ∀ pair ∈ prev, EndsAt rel begin1 begin2 end2 i pair.j pair.len

/-- The length that is kept is that of a block. -/
theorem Known.length (known : Known rel begin1 begin2 end2 i prev) (begun1 : begin1 ≤ i) {j : Nat}
    (begun2 : begin2 ≤ j) (ended2 : j < end2) (same : rel i j) :
    EndsAt rel begin1 begin2 end2 (i + 1) j (LongestCommonSubsequenceCalculator.length prev j) := by
  rw [LongestCommonSubsequenceCalculator.length]
  split
  · rename_i pair found
    obtain rfl : pair.j + 1 = j := by simpa using List.find?_some found
    exact (known pair (List.mem_of_find?_eq_some found)).extend ended2 same
  · exact endsAt_one begun1 begun2 ended2 same

/-- The matches of a row are inside the window. -/
theorem forEachBMatch_inside {rowIndex j : Nat}
    (member : j ∈ forEachBMatch b rowIndex begin2 end2) :
    begin2 ≤ j ∧ j < end2 := by
  obtain ⟨listed, begun⟩ := List.mem_filter.mp member
  have ended := List.mem_takeWhile_imp listed
  exact ⟨of_decide_eq_true begun, of_decide_eq_true ended⟩

/-- The matches of a row are in the second array. -/
theorem mem_of_mem_forEachBMatch {rowIndex j : Nat}
    (member : j ∈ forEachBMatch b rowIndex begin2 end2) : ⟨rowIndex, j⟩ ∈ b := by
  have listed := (List.takeWhile_sublist _).subset (List.mem_filter.mp member).1
  obtain ⟨row, among, rfl⟩ := List.mem_map.mp listed
  have same := List.mem_takeWhile_imp among
  rw [← of_decide_eq_true same]
  exact (List.dropWhile_sublist _).subset ((List.takeWhile_sublist _).subset among)

/-- **The best block is a block** of both arrays. -/
theorem scan_block {start2 stop2 : Nat} (begun1 : begin1 ≤ i) (ended1 : i + rest.length ≤ end1)
    (known : Known rel begin1 begin2 end2 i prev)
    (block : Block rel begin1 end1 begin2 end2 best.i best.j best.size)
    (related : ∀ offset row, rest[offset]? = some row →
      ∀ j ∈ forEachBMatch b row.rowIndex start2 stop2, (begin2 ≤ j ∧ j < end2) ∧
        rel (i + offset) j) :
    let found := scan modified b start2 stop2 i best prev rest
    Block rel begin1 end1 begin2 end2 found.i found.j found.size := by
  induction rest generalizing i best prev with
  | nil => exact block
  | cons row rest ih =>
      rw [List.length_cons] at ended1
      have here : ∀ j ∈ forEachBMatch b row.rowIndex start2 stop2,
          EndsAt rel begin1 begin2 end2 (i + 1) j
            (LongestCommonSubsequenceCalculator.length prev j) :=
        fun j member => by
          obtain ⟨inside, same⟩ := related 0 row rfl j member
          exact known.length begun1 inside.1 inside.2 same
      refine ih (Nat.le_succ_of_le begun1) (by omega) ?_ ?_ ?_
      · intro pair member
        rw [visit_snd, List.nil_append] at member
        obtain ⟨j, among, rfl⟩ := List.mem_map.mp member
        exact here j among
      · exact visit_best block fun j member => (here j member).block.mono (by omega)
      · intro offset other found j member
        rw [Nat.add_right_comm]
        exact related (offset + 1) other found j member

end Scan

/-! ## All blocks -/

variable {calculator : LongestCommonSubsequenceCalculator} {rel : Nat → Nat → Prop}
  {begin1 end1 begin2 end2 : Nat}

/-- A window is no longer than its ends are apart. -/
theorem length_window {rows : List Row} (begun1 : begin1 ≤ end1) :
    begin1 + ((rows.take end1).drop begin1).length ≤ end1 := by
  rw [List.length_drop, List.length_take]
  omega

/-- Where the longest match is: it begins and ends in the first window. -/
theorem findLongestMatch_within
    (nonempty : (calculator.findLongestMatch begin1 end1 begin2 end2).size ≠ 0) :
    begin1 ≤ (calculator.findLongestMatch begin1 end1 begin2 end2).i ∧
      (calculator.findLongestMatch begin1 end1 begin2 end2).i +
        (calculator.findLongestMatch begin1 end1 begin2 end2).size ≤ end1 := by
  have begun1 : begin1 ≤ end1 := by
    by_contra beyond
    have none : (calculator.a.take end1).drop begin1 = [] := by
      rw [List.drop_eq_nil_iff, List.length_take]
      omega
    rw [findLongestMatch, none] at nonempty
    exact nonempty rfl
  have block : Block (fun _ _ => True) begin1 end1 0 (begin2 + end2) begin1 begin2 0 :=
    ⟨Nat.le_refl _, begun1, Nat.zero_le _, by omega, fun _ _ => trivial⟩
  have found := @scan_block _ calculator.modified calculator.b begin1 end1 0 (begin2 + end2) begin1
      []
    ⟨begin1, begin2, 0, some 0⟩ ((calculator.a.take end1).drop begin1) begin2 end2
    (Nat.le_refl _) (length_window begun1) nofun block fun offset row _ j member => by
      have := (forEachBMatch_inside member).2
      exact ⟨by omega, trivial⟩
  exact ⟨found.begun1, found.ended1⟩

/-- The longest match of a window, with the ones before it and after it. -/
def findLongestMatches (calculator : LongestCommonSubsequenceCalculator)
    (begin1 end1 begin2 end2 : Nat) : List Match :=
  let m := calculator.findLongestMatch begin1 end1 begin2 end2
  if m.size = 0 then []
  else
    (if m.i > begin1 ∧ m.j > begin2 then calculator.findLongestMatches begin1 m.i begin2 m.j
      else []) ++ m ::
    (if m.i + m.size < end2 ∧ m.j + m.size < end2 then
        calculator.findLongestMatches (m.i + m.size) end1 (m.j + m.size) end2
      else [])
  termination_by end1 - begin1
  decreasing_by
    · have filled : (calculator.findLongestMatch begin1 end1 begin2 end2).size ≠ 0 := by assumption
      have within := findLongestMatch_within filled
      omega
    · have filled : (calculator.findLongestMatch begin1 end1 begin2 end2).size ≠ 0 := by assumption
      have within := findLongestMatch_within filled
      omega

/-- The blocks that both arrays are aligned by; the last one is empty, at their ends. -/
def longestMatches (calculator : LongestCommonSubsequenceCalculator) (startIndex : Nat) :
    List Match :=
  calculator.findLongestMatches startIndex calculator.a.length startIndex calculator.b.length ++
    [⟨calculator.a.length, calculator.b.length, 0, some 0⟩]

/-- Blocks of both arrays that come in order, in a window of both. -/
def Blocks (rel : Nat → Nat → Prop) (end1 end2 : Nat) : Nat → Nat → List Match → Prop
  | begin1, begin2, [] => begin1 ≤ end1 ∧ begin2 ≤ end2
  | begin1, begin2, m :: rest => Block rel begin1 end1 begin2 end2 m.i m.j m.size ∧
      Blocks rel end1 end2 (m.i + m.size) (m.j + m.size) rest

/-- Blocks before a block and blocks after it are blocks together. -/
theorem Blocks.append {left right : List Match} {m : Match}
    (before : Blocks rel m.i m.j begin1 begin2 left)
    (block : Block rel begin1 end1 begin2 end2 m.i m.j m.size)
    (after : Blocks rel end1 end2 (m.i + m.size) (m.j + m.size) right) :
    Blocks rel end1 end2 begin1 begin2 (left ++ m :: right) := by
  induction left generalizing begin1 begin2 with
  | nil => exact ⟨{ block with begun1 := before.1, begun2 := before.2 }, after⟩
  | cons first rest ih =>
      obtain ⟨here, later⟩ := before
      have early1 := block.ended1
      have early2 := block.ended2
      refine ⟨{ here with ended1 := ?_, ended2 := ?_ }, ih later ?_⟩
      · exact here.ended1.trans ((Nat.le_add_right _ _).trans early1)
      · exact here.ended2.trans ((Nat.le_add_right _ _).trans early2)
      · exact { block with begun1 := here.ended1, begun2 := here.ended2 }

/-- The longest match of a window is a block of both arrays. -/
theorem block_findLongestMatch (begun1 : begin1 ≤ end1) (begun2 : begin2 ≤ end2)
    (related : ∀ i row, calculator.a[i]? = some row →
      ∀ j, ⟨row.rowIndex, j⟩ ∈ calculator.b → rel i j) :
    let m := calculator.findLongestMatch begin1 end1 begin2 end2
    Block rel begin1 end1 begin2 end2 m.i m.j m.size := by
  refine scan_block (Nat.le_refl _) (length_window begun1) nofun
    ⟨Nat.le_refl _, begun1, Nat.le_refl _, begun2, nofun⟩ fun offset row found j member => ?_
  refine ⟨forEachBMatch_inside member, related _ row ?_ j (mem_of_mem_forEachBMatch member)⟩
  rw [List.getElem?_drop, List.getElem?_take] at found
  exact (Option.ite_none_right_eq_some.mp found).2

/-- **The blocks found** come in order and are blocks of both arrays. -/
theorem blocks_findLongestMatches (begun1 : begin1 ≤ end1) (begun2 : begin2 ≤ end2)
    (related : ∀ i row, calculator.a[i]? = some row →
      ∀ j, ⟨row.rowIndex, j⟩ ∈ calculator.b → rel i j) :
    Blocks rel end1 end2 begin1 begin2 (calculator.findLongestMatches begin1 end1 begin2 end2) := by
  fun_induction findLongestMatches calculator begin1 end1 begin2 end2 with
  | case1 begin1 end1 begin2 end2 m none => exact ⟨begun1, begun2⟩
  | case2 begin1 end1 begin2 end2 m nonempty ih ih' =>
      have block : Block rel begin1 end1 begin2 end2 m.i m.j m.size :=
        block_findLongestMatch begun1 begun2 related
      refine Blocks.append ?_ block ?_
      · split
        · exact ih block.begun1 block.begun2
        · exact ⟨block.begun1, block.begun2⟩
      · split
        · exact ih' block.ended1 block.ended2
        · exact ⟨block.ended1, block.ended2⟩

/-- Blocks of both arrays that come in order, from a place in each to their ends. -/
def Aligned (rel : Nat → Nat → Prop) (end1 end2 : Nat) : Nat → Nat → List Match → Prop
  | begin1, begin2, [] => begin1 = end1 ∧ begin2 = end2
  | begin1, begin2, m :: rest => Block rel begin1 end1 begin2 end2 m.i m.j m.size ∧
      Aligned rel end1 end2 (m.i + m.size) (m.j + m.size) rest

/-- Blocks in order align the windows, with an empty one at their ends. -/
theorem Blocks.aligned {found : List Match} {modified : Option Nat}
    (blocks : Blocks rel end1 end2 begin1 begin2 found) :
    Aligned rel end1 end2 begin1 begin2 (found ++ [⟨end1, end2, 0, modified⟩]) := by
  induction found generalizing begin1 begin2 with
  | nil => exact ⟨⟨blocks.1, Nat.le_refl _, blocks.2, Nat.le_refl _, nofun⟩, rfl, rfl⟩
  | cons m rest ih => exact ⟨blocks.1, ih blocks.2⟩

/-- **The alignment** of both arrays, from a place on to their ends. -/
theorem aligned_longestMatches {startIndex : Nat} (begun1 : startIndex ≤ calculator.a.length)
    (begun2 : startIndex ≤ calculator.b.length)
    (related : ∀ i row, calculator.a[i]? = some row →
      ∀ j, ⟨row.rowIndex, j⟩ ∈ calculator.b → rel i j) :
    Aligned rel calculator.a.length calculator.b.length startIndex startIndex
      (calculator.longestMatches startIndex) :=
  (blocks_findLongestMatches begun1 begun2 related).aligned

/-- A place of the first array and one of the second array are in the same block. -/
def InBlocks (matches' : List Match) (i j : Nat) : Prop :=
  ∃ m ∈ matches', ∃ offset < m.size, i = m.i + offset ∧ j = m.j + offset

/-- Two indices are in the first block, or in the others. -/
theorem inBlocks_cons {m : Match} {rest : List Match} {i j : Nat} :
    InBlocks (m :: rest) i j ↔
      (∃ offset < m.size, i = m.i + offset ∧ j = m.j + offset) ∨ InBlocks rest i j :=
  List.exists_mem_cons_iff ..

/-- Aligned rows are in the windows, and are the same. -/
theorem Aligned.inside {matches' : List Match} {i j : Nat}
    (aligned : Aligned rel end1 end2 begin1 begin2 matches') (listed : InBlocks matches' i j) :
    begin1 ≤ i ∧ begin2 ≤ j ∧ rel i j := by
  induction matches' generalizing begin1 begin2 with
  | nil =>
      obtain ⟨m, member, _⟩ := listed
      cases member
  | cons m rest ih =>
      obtain ⟨block, later⟩ := aligned
      have := block.begun1
      have := block.begun2
      rcases inBlocks_cons.mp listed with ⟨offset, inside, rfl, rfl⟩ | after
      · exact ⟨by omega, by omega, block.same offset inside⟩
      · obtain ⟨beyond1, beyond2, same⟩ := ih later after
        exact ⟨by omega, by omega, same⟩

/-- Places in blocks come in the same order in both arrays. -/
theorem Aligned.ordered {matches' : List Match} {i j i' j' : Nat}
    (aligned : Aligned rel end1 end2 begin1 begin2 matches') (first : InBlocks matches' i j)
    (second : InBlocks matches' i' j') : i < i' ↔ j < j' := by
  induction matches' generalizing begin1 begin2 with
  | nil =>
      obtain ⟨m, member, _⟩ := first
      cases member
  | cons m rest ih =>
      obtain ⟨block, later⟩ := aligned
      rcases inBlocks_cons.mp first with ⟨offset, inside, rfl, rfl⟩ | after
      · rcases inBlocks_cons.mp second with ⟨offset', inside', rfl, rfl⟩ | after'
        · omega
        · have := later.inside after'
          omega
      · rcases inBlocks_cons.mp second with ⟨offset', inside', rfl, rfl⟩ | after'
        · have := later.inside after
          omega
        · exact ih later after after'

/-- The places of the first array outside all blocks are before the first block, or after it
and outside the others. -/
theorem Aligned.outside_cons1 {m : Match} {rest : List Match} {i : Nat}
    (aligned : Aligned rel end1 end2 begin1 begin2 (m :: rest)) :
    (∀ j, ¬ InBlocks (m :: rest) i j) ↔
      i < m.i ∨ m.i + m.size ≤ i ∧ ∀ j, ¬ InBlocks rest i j := by
  have later := aligned.2
  constructor
  · intro outside
    by_cases before : i < m.i
    · exact Or.inl before
    · refine Or.inr ⟨?_, fun j listed => outside j (inBlocks_cons.mpr (Or.inr listed))⟩
      by_contra within
      refine outside (m.j + (i - m.i)) (inBlocks_cons.mpr (Or.inl ⟨i - m.i, by omega, ?_, rfl⟩))
      omega
  · intro outside j listed
    rcases inBlocks_cons.mp listed with ⟨offset, inside, rfl, rfl⟩ | after
    · omega
    · have := later.inside after
      rcases outside with before | ⟨_, others⟩
      · omega
      · exact others j after

/-- An index outside of all blocks is before the first one, or behind it and outside of the
others. -/
theorem Aligned.outside_cons2 {m : Match} {rest : List Match} {j : Nat}
    (aligned : Aligned rel end1 end2 begin1 begin2 (m :: rest)) :
    (∀ i, ¬ InBlocks (m :: rest) i j) ↔
      j < m.j ∨ m.j + m.size ≤ j ∧ ∀ i, ¬ InBlocks rest i j := by
  have later := aligned.2
  constructor
  · intro outside
    by_cases before : j < m.j
    · exact Or.inl before
    · refine Or.inr ⟨?_, fun i listed => outside i (inBlocks_cons.mpr (Or.inr listed))⟩
      by_contra within
      refine outside (m.i + (j - m.j)) (inBlocks_cons.mpr (Or.inl ⟨j - m.j, by omega, rfl, ?_⟩))
      omega
  · intro outside i listed
    rcases inBlocks_cons.mp listed with ⟨offset, inside, rfl, rfl⟩ | after
    · omega
    · have := later.inside after
      rcases outside with before | ⟨_, others⟩
      · omega
      · exact others i after

/-! ## No block is longer -/

section Longest

/-- Of ordered items, those taken are those that are to be kept. -/
theorem mem_takeWhile_iff {α : Type*} {keep : α → Bool} {items : List α}
    (closed : items.Pairwise fun first second => keep second = true → keep first = true)
    {item : α} :
    item ∈ items.takeWhile keep ↔ item ∈ items ∧ keep item = true := by
  induction items with
  | nil => simp
  | cons first rest ih =>
      obtain ⟨least, closed⟩ := List.pairwise_cons.mp closed
      by_cases kept : keep first = true
      · rw [List.takeWhile_cons_of_pos kept, List.mem_cons, List.mem_cons, ih closed]
        grind
      · rw [List.takeWhile_cons_of_neg kept]
        refine iff_of_false List.not_mem_nil fun ⟨member, holds⟩ => ?_
        rcases List.mem_cons.mp member with rfl | later
        · exact kept holds
        · exact kept (least item later holds)

/-- Of ordered items, those left are those that are not to be skipped. -/
theorem mem_dropWhile_iff {α : Type*} {skip : α → Bool} {items : List α}
    (closed : items.Pairwise fun first second => skip second = true → skip first = true)
    {item : α} :
    item ∈ items.dropWhile skip ↔ item ∈ items ∧ skip item = false := by
  induction items with
  | nil => simp
  | cons first rest ih =>
      obtain ⟨least, closed⟩ := List.pairwise_cons.mp closed
      by_cases skipped : skip first = true
      · rw [List.dropWhile_cons_of_pos skipped, List.mem_cons, ih closed]
        grind
      · rw [List.dropWhile_cons_of_neg skipped]
        refine (and_iff_left_of_imp fun member => ?_).symm
        rcases List.mem_cons.mp member with rfl | later
        · simpa using skipped
        · exact Bool.eq_false_iff.mpr fun holds => skipped (least item later holds)

/-- Rows in the order of the table, and the ones of the same row in that of the view. -/
def Ordered (b : List Row) : Prop :=
  b.Pairwise fun first second => first.rowIndex < second.rowIndex ∨
    first.rowIndex = second.rowIndex ∧ first.tvIndex ≤ second.tvIndex

variable {modified : IndexSet} {b : List Row} {i : Nat} {prev : List Length} {best : Match}
  {rest : List Row}

/-- In ordered rows, every place of a row in the window is found. -/
theorem mem_forEachBMatch_iff (ordered : Ordered b) {rowIndex j : Nat} :
    j ∈ forEachBMatch b rowIndex begin2 end2 ↔
      (begin2 ≤ j ∧ j < end2) ∧ ⟨rowIndex, j⟩ ∈ b := by
  have dropped : ∀ row, row ∈ b.dropWhile (fun row => row.rowIndex < rowIndex) ↔
      row ∈ b ∧ rowIndex ≤ row.rowIndex := fun row => by
    rw [mem_dropWhile_iff, decide_eq_false_iff_not, Nat.not_lt]
    refine ordered.imp fun order => ?_
    simp only [decide_eq_true_eq]
    omega
  have later : Ordered (b.dropWhile fun row => row.rowIndex < rowIndex) :=
    ordered.sublist (List.dropWhile_sublist _)
  have taken : ∀ row, row ∈ (b.dropWhile fun row => row.rowIndex < rowIndex).takeWhile
      (fun row => row.rowIndex = rowIndex) ↔ row ∈ b ∧ row.rowIndex = rowIndex := fun row => by
    rw [mem_takeWhile_iff, dropped, decide_eq_true_eq]
    · grind
    · refine later.imp_of_mem fun first second order => ?_
      have := ((dropped _).mp first).2
      simp only [decide_eq_true_eq]
      omega
  have sorted : (((b.dropWhile fun row => row.rowIndex < rowIndex).takeWhile
      fun row => row.rowIndex = rowIndex).map Row.tvIndex).Pairwise (· ≤ ·) := by
    rw [List.pairwise_map]
    refine (later.sublist (List.takeWhile_sublist _)).imp_of_mem fun first second order => ?_
    have := ((taken _).mp first).2
    have := ((taken _).mp second).2
    omega
  rw [forEachBMatch, List.mem_filter, mem_takeWhile_iff, List.mem_map]
  · simp only [taken, decide_eq_true_eq]
    constructor
    · intro ⟨⟨⟨row, ⟨member, same⟩, place⟩, ended⟩, begun⟩
      refine ⟨⟨begun, ended⟩, ?_⟩
      rwa [← same, ← place]
    · intro ⟨⟨begun, ended⟩, member⟩
      exact ⟨⟨⟨_, ⟨member, rfl⟩, rfl⟩, ended⟩, begun⟩
  · refine sorted.imp fun order => ?_
    simp only [decide_eq_true_eq]
    omega

/-- The lengths of all blocks that end before an index are known. -/
def Complete (rel : Nat → Nat → Prop) (begin1 begin2 end2 i : Nat) (prev : List Length) : Prop :=
  ∀ j size, EndsAt rel begin1 begin2 end2 i j size →
    (∃ pair ∈ prev, pair.j = j) ∧ ∀ pair ∈ prev, pair.j = j → size ≤ pair.len

/-- A match is at least one long. -/
theorem one_le_length (prev : List Length) (j : Nat) : 1 ≤ length prev j := by
  rw [length]
  split
  · exact Nat.le_add_left 1 _
  · exact Nat.le_refl 1

/-- The length that is kept is the longest. -/
theorem Complete.le_length {j size : Nat} (complete : Complete rel begin1 begin2 end2 i prev)
    (ends : EndsAt rel begin1 begin2 end2 (i + 1) j (size + 1)) :
    size + 1 ≤ LongestCommonSubsequenceCalculator.length prev j := by
  obtain ⟨_, _, _, before⟩ := ends.shrink
  by_cases single : size = 0
  · rw [single]
    exact one_le_length prev j
  · obtain ⟨positive, shorter⟩ := before (Nat.pos_of_ne_zero single)
    obtain ⟨⟨pair, member, place⟩, all⟩ := complete (j - 1) size shorter
    rw [LongestCommonSubsequenceCalculator.length]
    cases found : prev.find? fun pair => pair.j + 1 = j with
    | none =>
        have := List.find?_eq_none.mp found pair member
        simp only [decide_eq_true_eq] at this
        omega
    | some first =>
        have same : first.j + 1 = j := by simpa using List.find?_some found
        exact Nat.succ_le_succ (all first (List.mem_of_find?_eq_some found) (by omega))

/-- **No block is longer than the best one**; the induction is on the rows that are left to scan.
-/
theorem scan_longest (complete : Complete rel begin1 begin2 end2 i prev)
    (longest : ∀ i' ≤ i, ∀ j size, EndsAt rel begin1 begin2 end2 i' j size → size ≤ best.size)
    (related : ∀ offset row, rest[offset]? = some row → ∀ j,
      j ∈ forEachBMatch b row.rowIndex begin2 end2 ↔ (begin2 ≤ j ∧ j < end2) ∧ rel (i + offset) j) :
    ∀ i' ≤ i + rest.length, ∀ j size, EndsAt rel begin1 begin2 end2 i' j size →
      size ≤ (scan modified b begin2 end2 i best prev rest).size := by
  induction rest generalizing i best prev with
  | nil => exact longest
  | cons row rest ih =>
      have members := related 0 row rfl
      rw [Nat.add_zero] at members
      obtain ⟨kept, sizes⟩ := @size_le_visit modified prev [] best i
        (forEachBMatch b row.rowIndex begin2 end2)
      rw [List.length_cons, ← Nat.add_assoc, Nat.add_right_comm]
      refine ih ?_ ?_ ?_
      · intro j size ends
        obtain ⟨size, rfl⟩ := Nat.exists_eq_succ_of_ne_zero (Nat.pos_iff_ne_zero.mp ends.nonempty)
        obtain ⟨same, begun, ended, _⟩ := ends.shrink
        rw [visit_snd, List.nil_append]
        refine ⟨⟨_, List.mem_map_of_mem ((members j).mpr ⟨⟨begun, ended⟩, same⟩), rfl⟩, ?_⟩
        intro pair member place
        obtain ⟨other, _, rfl⟩ := List.mem_map.mp member
        obtain rfl : other = j := place
        exact complete.le_length ends
      · intro i' below j size ends
        by_cases here : i' = i + 1
        · subst here
          obtain ⟨size, rfl⟩ := Nat.exists_eq_succ_of_ne_zero (Nat.pos_iff_ne_zero.mp ends.nonempty)
          obtain ⟨same, begun, ended, _⟩ := ends.shrink
          exact (complete.le_length ends).trans (sizes j ((members j).mpr ⟨⟨begun, ended⟩, same⟩))
        · exact (longest i' (by omega) j size ends).trans kept
      · intro offset other found j
        rw [Nat.add_right_comm]
        exact related (offset + 1) other found j

/-- **No block is longer**: a block in a window of both arrays has at most the size of the one
that is found there. -/
theorem size_le_findLongestMatch (ordered : Ordered calculator.b) {i j size : Nat}
    (block : Block (fun i j => ∃ row, calculator.a[i]? = some row ∧
      ⟨row.rowIndex, j⟩ ∈ calculator.b) begin1 end1 begin2 end2 i j size) :
    size ≤ (calculator.findLongestMatch begin1 end1 begin2 end2).size := by
  by_cases empty : size = 0
  · rw [empty]
    exact Nat.zero_le _
  · have early : ∀ {rel : Nat → Nat → Prop} {i' j size : Nat}, i' ≤ begin1 →
        ¬ EndsAt rel begin1 begin2 end2 i' j size := fun below ends => by
      have := ends.nonempty
      have := ends.block.begun1
      have := ends.inside1
      omega
    have inside : i + size ≤ begin1 + ((calculator.a.take end1).drop begin1).length := by
      obtain ⟨row, found, _⟩ := block.same (size - 1) (by omega)
      have := (List.getElem?_eq_some_iff.mp found).1
      have := block.ended1
      rw [List.length_drop, List.length_take]
      omega
    have ends : EndsAt (fun i j => ∃ row, calculator.a[i]? = some row ∧
        ⟨row.rowIndex, j⟩ ∈ calculator.b) begin1 begin2 end2 (i + size) (j + size - 1) size := by
      refine ⟨Nat.pos_of_ne_zero empty, Nat.le_add_left _ _, by omega, ?_⟩
      rw [Nat.add_sub_cancel, Nat.sub_add_cancel (by omega), Nat.add_sub_cancel]
      exact { block with ended1 := Nat.le_refl _ }
    refine scan_longest (fun j size ends => absurd ends (early (Nat.le_refl _)))
      (fun i' below j size ends => absurd ends (early below)) ?_ (i + size) inside _ size ends
    intro offset row found j
    rw [mem_forEachBMatch_iff ordered]
    refine and_congr_right fun _ => ?_
    rw [List.getElem?_drop, List.getElem?_take] at found
    rw [(Option.ite_none_right_eq_some.mp found).2]
    simp

/-- Two rows that come in the same order in both arrays. -/
theorem size_le_findLongestMatch_two :
    2 ≤ ((⟨IndexSet.clear, [⟨4, 0⟩, ⟨6, 1⟩], [⟨4, 0⟩, ⟨6, 1⟩]⟩ :
      LongestCommonSubsequenceCalculator).findLongestMatch 0 2 0 2).size := by
  have ordered : Ordered [⟨4, 0⟩, ⟨6, 1⟩] := List.pairwise_pair.mpr (Or.inl (by decide))
  refine size_le_findLongestMatch (i := 0) (j := 0) ordered
    ⟨Nat.le_refl _, Nat.le_refl _, Nat.le_refl _, Nat.le_refl _, fun offset inside => ?_⟩
  obtain rfl | rfl : offset = 0 ∨ offset = 1 := by omega
  · exact ⟨_, rfl, List.mem_cons_self⟩
  · exact ⟨_, rfl, List.mem_cons_of_mem _ List.mem_cons_self⟩

end Longest

end LongestCommonSubsequenceCalculator

end EventTalks.Realm

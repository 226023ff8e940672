import Mathlib.Data.Nat.Nth
import Mathlib.Data.Finset.Image
import Mathlib.Data.Finset.Lattice.Basic
import Mathlib.Order.Interval.Finset.Nat

/-! # Positions before and after insertions

Inserting at the indices of a set moves every item to the next free index, and removing
the indices moves it back (`Foundation.Positions.shift`, `Foundation.Positions.unshift`).
Insertions made one after the other are insertions at the indices of both
(`Foundation.Positions.shift_shift`), and a set is itself inserted into, shifted and erased
from with its indices moved along.
-/

namespace Foundation

namespace Positions

/-- Where the item at an index is after insertions at the indices of a set. -/
noncomputable def shift (inserted : Finset ℕ) (index : ℕ) : ℕ := Nat.nth (· ∉ inserted) index

/-- Where the item at an index is after the indices of a set are removed. -/
def unshift (removed : Finset ℕ) (index : ℕ) : ℕ := Nat.count (· ∉ removed) index

/-- The free position of a number is the one that has that many free ones below it. -/
theorem nth_eq_iff {free : ℕ → Prop} [DecidablePred free] (infinite : (Set.ofPred free).Infinite)
    (index position : ℕ) :
    Nat.nth free index = position ↔ free position ∧ Nat.count free position = index := by
  constructor
  · rintro rfl
    exact ⟨Nat.nth_mem_of_infinite infinite index, Nat.count_nth_of_infinite infinite index⟩
  · intro found
    rw [← found.2]
    exact Nat.nth_count found.1

variable {taken other : Finset ℕ} {index position : ℕ}

/-- There are always free positions. -/
theorem infinite_free (taken : Finset ℕ) : (Set.ofPred (· ∉ taken)).Infinite :=
  taken.finite_toSet.infinite_compl

/-- A shifted index is a free position that unshifts to the index. -/
theorem shift_eq_iff :
    shift taken index = position ↔ position ∉ taken ∧ unshift taken position = index :=
  nth_eq_iff (infinite_free taken) index position

/-- A shifted index is free. -/
theorem shift_notMem (taken : Finset ℕ) (index : ℕ) : shift taken index ∉ taken :=
  (shift_eq_iff.mp rfl).1

/-- Unshifting takes back shifting. -/
@[simp] theorem unshift_shift (taken : Finset ℕ) (index : ℕ) :
    unshift taken (shift taken index) = index :=
  (shift_eq_iff.mp rfl).2

/-- Shifting takes back unshifting, of a free position. -/
theorem shift_unshift (free : position ∉ taken) : shift taken (unshift taken position) = position :=
  shift_eq_iff.mpr ⟨free, rfl⟩

/-- Shifting keeps the order. -/
theorem shift_strictMono (taken : Finset ℕ) : StrictMono (shift taken) :=
  Nat.nth_strictMono (infinite_free taken)

/-- No two indices are shifted to one. -/
theorem shift_injective (taken : Finset ℕ) : Function.Injective (shift taken) :=
  (shift_strictMono taken).injective

/-- The indices below an index that are taken make up for what it moves back. -/
theorem unshift_add_card (taken : Finset ℕ) (index : ℕ) :
    unshift taken index + (taken.filter (· < index)).card = index := by
  induction index with
  | zero => simp [unshift]
  | succ index ih =>
      have below : taken.filter (· < index + 1) =
          if index ∈ taken then insert index (taken.filter (· < index))
          else taken.filter (· < index) := by
        ext other
        split <;> simp only [Finset.mem_filter, Finset.mem_insert, Nat.lt_succ_iff_lt_or_eq] <;>
          grind
      rw [unshift, Nat.count_succ, below]
      by_cases here : index ∈ taken
      · simp only [here, ↓reduceIte, not_true_eq_false]
        rw [Finset.card_insert_of_notMem (by simp)]
        change unshift taken index + 0 + _ = _
        omega
      · simp only [here, ↓reduceIte, not_false_eq_true]
        change unshift taken index + 1 + _ = _
        omega

/-- Unshifting moves an index forward, or leaves it. -/
theorem unshift_le (taken : Finset ℕ) (index : ℕ) : unshift taken index ≤ index :=
  Nat.count_le _

/-- Unshifting keeps the order from a free position on. -/
theorem unshift_lt_unshift (free : index ∉ taken) (before : index < position) :
    unshift taken index < unshift taken position :=
  Nat.count_strict_mono free before

/-- No two free positions are unshifted to one. -/
theorem unshift_injOn (first : index ∉ taken) (second : position ∉ taken)
    (same : unshift taken index = unshift taken position) : index = position := by
  rw [← shift_unshift first, same, shift_unshift second]

/-- A shifted index is below a bound when it is below the unshifted bound. -/
theorem shift_lt_iff {bound : ℕ} : shift taken index < bound ↔ index < unshift taken bound := by
  rw [← Nat.not_le, ← Nat.not_le]
  exact not_congr (Nat.count_le_iff_le_nth (infinite_free taken)).symm

/-- Insertions made one after the other are insertions at the indices of both, the first
ones where the second ones leave them. -/
theorem shift_shift (taken other : Finset ℕ) (index : ℕ) :
    shift taken (shift other index) = shift (taken ∪ other.image (shift taken)) index := by
  have free : ∀ position, position ∉ taken ∪ other.image (shift taken) →
      position ∈ Set.range (shift taken) := by
    intro position outside
    simp only [Finset.mem_union, not_or] at outside
    exact ⟨_, shift_unshift outside.1⟩
  have same : (fun position => shift taken position ∉ taken ∪ other.image (shift taken)) =
      (· ∉ other) := by
    funext position
    simp [shift_notMem, (shift_injective taken).eq_iff]
  have composed := Nat.nth_comp_of_strictMono (n := index) (shift_strictMono taken) free
    fun finite => absurd finite (infinite_free _)
  rw [same] at composed
  exact composed

/-- What a set takes more than another can be taken after it. -/
theorem image_shift_unshift (taken other : Finset ℕ) :
    ((other \ taken).image (unshift taken)).image (shift taken) = other \ taken := by
  rw [Finset.image_image]
  ext position
  simp only [Finset.mem_image, Function.comp_apply]
  constructor
  · rintro ⟨original, member, rfl⟩
    rwa [shift_unshift (Finset.mem_sdiff.mp member).2]
  · intro member
    exact ⟨position, member, shift_unshift (Finset.mem_sdiff.mp member).2⟩

/-- Shifting for one set and then for what another one has besides is shifting for both. -/
theorem shift_shift_of_sdiff (taken other : Finset ℕ) (index : ℕ) :
    shift taken (shift ((other \ taken).image (unshift taken)) index) =
      shift (taken ∪ other) index := by
  rw [shift_shift, image_shift_unshift, Finset.union_sdiff_self_eq_union]

/-- An index itself does not count among those below it. -/
theorem unshift_erase_self (taken : Finset ℕ) (index : ℕ) :
    unshift (taken.erase index) index = unshift taken index := by
  have below : (taken.erase index).filter (· < index) = taken.filter (· < index) := by
    ext position
    simp only [Finset.mem_filter, Finset.mem_erase]
    exact ⟨fun inside => ⟨inside.1.2, inside.2⟩, fun inside => ⟨⟨inside.2.ne, inside.1⟩, inside.2⟩⟩
  have first := unshift_add_card (taken.erase index) index
  have second := unshift_add_card taken index
  rw [below] at first
  omega

/-- An index that is taken can be taken last. -/
theorem shift_erase_shift (member : position ∈ taken) (index : ℕ) :
    shift (taken.erase position) (shift {unshift taken position} index) = shift taken index := by
  have placed : shift (taken.erase position) (unshift taken position) = position := by
    rw [← unshift_erase_self, shift_unshift (Finset.notMem_erase _ _)]
  rw [shift_shift, Finset.image_singleton, placed, Finset.union_comm, ← Finset.insert_eq,
    Finset.insert_erase member]

/-- An index with as many taken indices below it as it is moved by is where it moves. -/
theorem shift_eq_add {amount : ℕ} (free : index + amount ∉ taken)
    (counted : (taken.filter (· < index + amount)).card = amount) :
    shift taken index = index + amount := by
  rw [shift_eq_iff]
  have total := unshift_add_card taken (index + amount)
  exact ⟨free, by omega⟩

/-- An index with nothing taken up to it stays where it is. -/
theorem shift_eq_self (free : ∀ position ∈ taken, index < position) :
    shift taken index = index := by
  have none : taken.filter (· < index + 0) = ∅ :=
    Finset.filter_eq_empty_iff.mpr fun position member => (free position member).asymm
  exact shift_eq_add (fun member => (free _ member).false) (by rw [none, Finset.card_empty])

/-- Nothing taken, nothing shifted. -/
@[simp] theorem shift_empty (index : ℕ) : shift ∅ index = index := shift_eq_self (by simp)

/-- Nothing taken, nothing unshifted. -/
@[simp] theorem unshift_empty (index : ℕ) : unshift ∅ index = index := by
  have := unshift_shift ∅ index
  rwa [shift_empty] at this

/-- Unshifting takes off the number of taken positions below. -/
theorem unshift_eq_sub (taken : Finset ℕ) (index : ℕ) :
    unshift taken index = index - (taken.filter (· < index)).card := by
  have := unshift_add_card taken index
  omega

/-- A free position is found again through any set that takes the same positions below it. -/
theorem shift_unshift_of_filter_eq (free : position ∉ taken)
    (same : taken.filter (· < position) = other.filter (· < position)) :
    shift taken (unshift other position) = position := by
  rw [unshift_eq_sub, ← same, ← unshift_eq_sub, shift_unshift free]

/-- Unshifting out of an interval. -/
theorem unshift_Ico (start size index : ℕ) :
    unshift (Finset.Ico start (start + size)) index =
      if index < start then index else if index < start + size then start else index - size := by
  have below : (Finset.Ico start (start + size)).filter (· < index) =
      Finset.Ico start (min (start + size) index) := by
    ext other
    simp only [Finset.mem_filter, Finset.mem_Ico, lt_min_iff, and_assoc]
  rw [unshift_eq_sub, below, Nat.card_Ico]
  split
  · omega
  · split <;> omega

/-- Unshifting out of a single position. -/
theorem unshift_singleton (position index : ℕ) :
    unshift {position} index = if index ≤ position then index else index - 1 := by
  rw [← Nat.Ico_succ_singleton, unshift_Ico]
  split
  · rw [if_pos (by omega)]
  · split <;> split <;> omega

/-- Shifting past a single position. -/
theorem shift_singleton (position index : ℕ) :
    shift {position} index = if index < position then index else index + 1 := by
  rw [shift_eq_iff, unshift_singleton, Finset.mem_singleton]
  by_cases before : index < position
  · rw [if_pos before, if_pos before.le]
    exact ⟨before.ne, rfl⟩
  · rw [if_neg before, if_neg (by omega)]
    exact ⟨by omega, rfl⟩

/-- The indices of a set after insertions at other positions. -/
noncomputable def shiftForInsertAt (set positions : Finset ℕ) : Finset ℕ :=
  set.image (shift positions)

/-- The indices of a set after insertions at positions, which it gains. -/
noncomputable def insertAt (set positions : Finset ℕ) : Finset ℕ :=
  positions ∪ shiftForInsertAt set positions

/-- The indices of a set after positions are removed, with those that it loses. -/
def eraseAt (set positions : Finset ℕ) : Finset ℕ :=
  (set \ positions).image (unshift positions)

/-- What is there after others were made room for was there before, and moved. -/
theorem mem_shiftForInsertAt {set positions : Finset ℕ} :
    index ∈ shiftForInsertAt set positions ↔
      index ∉ positions ∧ unshift positions index ∈ set := by
  rw [shiftForInsertAt, Finset.mem_image]
  constructor
  · rintro ⟨original, member, rfl⟩
    exact ⟨shift_notMem _ _, by rwa [unshift_shift]⟩
  · intro moved
    exact ⟨_, moved.2, shift_unshift moved.1⟩

/-- What is there after an insertion was inserted, or was there before and moved. -/
theorem mem_insertAt {set positions : Finset ℕ} :
    index ∈ insertAt set positions ↔ index ∈ positions ∨ unshift positions index ∈ set := by
  rw [insertAt, Finset.mem_union, mem_shiftForInsertAt]
  by_cases listed : index ∈ positions
  · simp [listed]
  · simp [listed]

/-- What is there after an erasure was there before, where it is shifted to. -/
theorem mem_eraseAt {set positions : Finset ℕ} :
    index ∈ eraseAt set positions ↔ shift positions index ∈ set := by
  rw [eraseAt, Finset.mem_image]
  constructor
  · rintro ⟨original, member, rfl⟩
    obtain ⟨inside, free⟩ := Finset.mem_sdiff.mp member
    rwa [shift_unshift free]
  · intro inside
    exact ⟨_, Finset.mem_sdiff.mpr ⟨inside, shift_notMem _ _⟩, unshift_shift _ _⟩

/-- What stays is there after an erasure exactly when it was there before. -/
theorem unshift_mem_eraseAt {set positions : Finset ℕ} (free : index ∉ positions) :
    unshift positions index ∈ eraseAt set positions ↔ index ∈ set := by
  rw [mem_eraseAt, shift_unshift free]

/-- Room for nothing moves nothing. -/
@[simp] theorem shiftForInsertAt_empty (set : Finset ℕ) : shiftForInsertAt set ∅ = set := by
  ext index
  simp [mem_shiftForInsertAt]

/-- Inserting nothing changes nothing. -/
@[simp] theorem insertAt_empty (set : Finset ℕ) : insertAt set ∅ = set := by
  simp [insertAt]

/-- Erasing nothing changes nothing. -/
@[simp] theorem eraseAt_empty (set : Finset ℕ) : eraseAt set ∅ = set := by
  ext index
  simp [mem_eraseAt]

/-- Nothing is moved in an empty set. -/
@[simp] theorem empty_shiftForInsertAt (positions : Finset ℕ) :
    shiftForInsertAt ∅ positions = ∅ := rfl

/-- What is inserted in an empty set is all it has. -/
@[simp] theorem empty_insertAt (positions : Finset ℕ) : insertAt ∅ positions = positions :=
  Finset.union_empty _

/-- Nothing is left of an empty set. -/
@[simp] theorem empty_eraseAt (positions : Finset ℕ) : eraseAt ∅ positions = ∅ := by
  simp [eraseAt]

end Positions

end Foundation

import EventTalks.Foundation.IndexedEdits
import EventTalks.Foundation.Positions
import Mathlib.Combinatorics.Enumerative.DoubleCounting

/-! # Scripts of deletions and insertions

A script is the indices that a list loses and those that another one gains, with the items
in between kept in their order (`Foundation.Script.Describes`). Scripts are made one after
the other (`Foundation.Script.Describes.append`), and an item that a script takes out and
puts back where it was can be left where it is (`Foundation.Script.Describes.cancel`).
With moves, which say where an item that is taken out is put back, items are followed from
one list to the other (`Foundation.Script.Follows`), also through two scripts
(`Foundation.Script.follows_append`).
-/

namespace Foundation

variable {α : Type*}

open Positions

/-- The indices that an old list loses and those that a new one gains. -/
structure Script where
  deletions : Finset ℕ
  insertions : Finset ℕ

namespace Script

/-- A script leads from an old list to a new one: what is not deleted is what is not
inserted, in the same order. -/
structure Describes (script : Script) (old new : List α) : Prop where
  deleted : ∀ index ∈ script.deletions, index < old.length
  inserted : ∀ index ∈ script.insertions, index < new.length
  kept : ∀ index,
    old[shift script.deletions index]? = new[shift script.insertions index]?

/-- Two scripts made one after the other. -/
noncomputable def append (first second : Script) : Script where
  deletions := first.deletions ∪
    (eraseAt second.deletions first.insertions).image (shift first.deletions)
  insertions := insertAt (eraseAt first.insertions second.deletions) second.insertions

section Describes

variable {script first second : Script} {old middle new : List α}

/-- A kept item is in both lists, or in none. -/
theorem Describes.kept_lt (describes : script.Describes old new) (index : ℕ) :
    shift script.deletions index < old.length ↔ shift script.insertions index < new.length := by
  rw [← not_iff_not, Nat.not_lt, Nat.not_lt, ← List.getElem?_eq_none_iff,
    ← List.getElem?_eq_none_iff, describes.kept]

/-- An item that a script keeps is the one at the index that it moves to. -/
theorem Describes.getElem?_of_notMem (describes : script.Describes old new) {index : ℕ}
    (kept : index ∉ script.deletions) :
    new[shift script.insertions (unshift script.deletions index)]? = old[index]? := by
  rw [← describes.kept, shift_unshift kept]

/-- **Scripts are made one after the other.** -/
theorem Describes.append (begins : first.Describes old middle)
    (continues : second.Describes middle new) : (first.append second).Describes old new where
  deleted index member := by
    rw [Script.append, Finset.mem_union, Finset.mem_image] at member
    rcases member with earlier | ⟨position, later, rfl⟩
    · exact begins.deleted index earlier
    · rw [begins.kept_lt]
      exact continues.deleted _ (mem_eraseAt.mp later)
  inserted index member := by
    rw [Script.append, mem_insertAt] at member
    rcases member with later | earlier
    · exact continues.inserted index later
    · by_cases later : index ∈ second.insertions
      · exact continues.inserted index later
      · rw [← shift_unshift later, ← continues.kept_lt]
        exact begins.inserted _ (mem_eraseAt.mp earlier)
  kept index := by
    have between : shift first.insertions
          (shift (eraseAt second.deletions first.insertions) index) =
        shift second.deletions (shift (eraseAt first.insertions second.deletions) index) := by
      rw [eraseAt, eraseAt, shift_shift_of_sdiff, shift_shift_of_sdiff, Finset.union_comm]
    calc old[shift (first.append second).deletions index]?
        = old[shift first.deletions
            (shift (eraseAt second.deletions first.insertions) index)]? := by
          rw [shift_shift]
          rfl
      _ = middle[shift first.insertions
            (shift (eraseAt second.deletions first.insertions) index)]? := begins.kept _
      _ = new[shift second.insertions
            (shift (eraseAt first.insertions second.deletions) index)]? := by
          rw [between, continues.kept]
      _ = new[shift (first.append second).insertions index]? := by
          rw [shift_shift]
          rfl

/-- **An item that is taken out and put back** where it was can stay where it is. -/
theorem Describes.cancel (describes : script.Describes old new) {source target : ℕ}
    (deleted : source ∈ script.deletions) (inserted : target ∈ script.insertions)
    (back : unshift script.deletions source = unshift script.insertions target)
    (same : old[source]? = new[target]?) :
    Describes ⟨script.deletions.erase source, script.insertions.erase target⟩ old new where
  deleted index member := describes.deleted index (Finset.mem_of_mem_erase member)
  inserted index member := describes.inserted index (Finset.mem_of_mem_erase member)
  kept index := by
    by_cases here : index = unshift script.deletions source
    · have first : shift (script.deletions.erase source) index = source := by
        rw [here, ← unshift_erase_self, shift_unshift (Finset.notMem_erase _ _)]
      have second : shift (script.insertions.erase target) index = target := by
        rw [here, back, ← unshift_erase_self, shift_unshift (Finset.notMem_erase _ _)]
      rw [first, second, same]
    · have free : index ∉ ({unshift script.deletions source} : Finset ℕ) := by simpa using here
      rw [← shift_unshift free, shift_erase_shift deleted, back, shift_erase_shift inserted]
      exact describes.kept _

end Describes

/-! ## Scripts by the items that they keep -/

/-- Which items a script keeps: pairs of an old index and a new one, in the same order. -/
structure Keeps (script : Script) (old new : List α) (kept : ℕ → ℕ → Prop) : Prop where
  deleted : ∀ source, source ∈ script.deletions ↔
    source < old.length ∧ ∀ target, ¬ kept source target
  inserted : ∀ target, target ∈ script.insertions ↔
    target < new.length ∧ ∀ source, ¬ kept source target
  inside : ∀ source target, kept source target → source < old.length ∧ target < new.length
  ordered : ∀ source target source' target', kept source target → kept source' target' →
    (source < source' ↔ target < target')
  same : ∀ source target, kept source target → old[source]? = new[target]?

section Keeps

variable {script : Script} {old new : List α} {kept : ℕ → ℕ → Prop}

/-- Read backwards, a script keeps the same pairs. -/
theorem Keeps.swap (keeps : script.Keeps old new kept) :
    Keeps ⟨script.insertions, script.deletions⟩ new old fun source target =>
      kept target source where
  deleted := keeps.inserted
  inserted := keeps.deleted
  inside source target pair := (keeps.inside target source pair).symm
  ordered source target source' target' pair pair' :=
    (keeps.ordered target source target' source' pair pair').symm
  same source target pair := (keeps.same target source pair).symm

/-- No kept item gets ahead of another one. -/
theorem Keeps.unshift_le (keeps : script.Keeps old new kept) {source target : ℕ}
    (pair : kept source target) :
    unshift script.deletions source ≤ unshift script.insertions target := by
  classical
  rw [unshift, unshift, Nat.count_eq_card_filter_range, Nat.count_eq_card_filter_range]
  apply Finset.card_le_card_of_forall_subsingleton kept
  · intro source' member
    obtain ⟨below, free⟩ := Finset.mem_filter.mp member
    rw [keeps.deleted, not_and, not_forall_not] at free
    obtain ⟨target', pair'⟩ :=
      free ((Finset.mem_range.mp below).trans (keeps.inside _ _ pair).1)
    refine ⟨target', Finset.mem_filter.mpr ⟨?_, fun gone => ?_⟩, pair'⟩
    · exact Finset.mem_range.mpr ((keeps.ordered _ _ _ _ pair' pair).mp (Finset.mem_range.mp below))
    · exact ((keeps.inserted _).mp gone).2 _ pair'
  · intro target' _ first here second there
    have forward := (keeps.ordered _ _ _ _ here.2 there.2).not.mpr (Nat.lt_irrefl _)
    have back := (keeps.ordered _ _ _ _ there.2 here.2).not.mpr (Nat.lt_irrefl _)
    omega

/-- As many items are kept before a pair on either side. -/
theorem Keeps.unshift_eq (keeps : script.Keeps old new kept) {source target : ℕ}
    (pair : kept source target) :
    unshift script.deletions source = unshift script.insertions target :=
  le_antisymm (keeps.unshift_le pair) (keeps.swap.unshift_le pair)

/-- The kept items are paired in their order. -/
theorem Keeps.shift_eq (keeps : script.Keeps old new kept) {index : ℕ}
    (inside : shift script.deletions index < old.length) :
    kept (shift script.deletions index) (shift script.insertions index) := by
  have free := shift_notMem script.deletions index
  rw [keeps.deleted, not_and, not_forall_not] at free
  obtain ⟨target, pair⟩ := free inside
  have stays : target ∉ script.insertions := fun gone => ((keeps.inserted _).mp gone).2 _ pair
  have same := keeps.unshift_eq pair
  rw [unshift_shift] at same
  rwa [shift_eq_iff.mpr ⟨stays, same.symm⟩]

/-- An item that is not deleted is kept where it is shifted to. -/
theorem Keeps.kept_of_notMem (keeps : script.Keeps old new kept) {source : ℕ}
    (stays : source ∉ script.deletions) (inside : source < old.length) :
    kept source (shift script.insertions (unshift script.deletions source)) := by
  have pair := @Keeps.shift_eq _ _ _ _ _ keeps (unshift script.deletions source)
    (by rwa [shift_unshift stays])
  rwa [shift_unshift stays] at pair

/-- What a script keeps of some lists it keeps of others of the same lengths, when the items
that are paired are the same there too. -/
theorem Keeps.congr {β : Type*} {old' new' : List β} (keeps : script.Keeps old new kept)
    (lengths : old.length = old'.length) (lengths' : new.length = new'.length)
    (same : ∀ source target, kept source target → old'[source]? = new'[target]?) :
    script.Keeps old' new' kept where
  deleted source := lengths ▸ keeps.deleted source
  inserted target := lengths' ▸ keeps.inserted target
  inside source target pair := lengths ▸ lengths' ▸ keeps.inside source target pair
  ordered := keeps.ordered
  same := same

/-- **A script that keeps pairs of equal items in order** leads from one list to the other. -/
theorem Keeps.describes (keeps : script.Keeps old new kept) : script.Describes old new where
  deleted index member := ((keeps.deleted index).mp member).1
  inserted index member := ((keeps.inserted index).mp member).1
  kept index := by
    by_cases inside : shift script.deletions index < old.length
    · exact keeps.same _ _ (keeps.shift_eq inside)
    · have beyond : ¬ shift script.insertions index < new.length := fun before =>
        inside (keeps.inside _ _ (keeps.swap.shift_eq before)).1
      rw [List.getElem?_eq_none (Nat.le_of_not_lt inside),
        List.getElem?_eq_none (Nat.le_of_not_lt beyond)]

end Keeps

/-! ## Items that a script moves

A script takes an item that moves out of the old list and puts it into the new one. Moves
say which of the items taken out are put back, and where. -/

/-- Moves fit a script: they lead from what it deletes to what it inserts, and no two of
them begin or end at the same index. -/
structure Paired (script : Script) (moves : ℕ → ℕ → Prop) : Prop where
  deleted : ∀ source target, moves source target → source ∈ script.deletions
  inserted : ∀ source target, moves source target → target ∈ script.insertions
  functional : ∀ source first second, moves source first → moves source second → first = second
  injective : ∀ first second target, moves first target → moves second target → first = second

/-- Where an item of the old list is in the new one: it is kept, or moved. -/
def Follows (script : Script) (moves : ℕ → ℕ → Prop) (source target : ℕ) : Prop :=
  (source ∉ script.deletions ∧
    shift script.insertions (unshift script.deletions source) = target) ∨ moves source target

/-- The moves of two scripts made one after the other. -/
def movesAppend (first second : Script) (moves moves' : ℕ → ℕ → Prop) (source target : ℕ) : Prop :=
  (∃ middle, moves source middle ∧ second.Follows moves' middle target) ∨
    ∃ middle ∉ first.insertions, moves' middle target ∧
      shift first.deletions (unshift first.insertions middle) = source

section Follows

variable {script first second : Script} {moves moves' : ℕ → ℕ → Prop} {source target : ℕ}

/-- An item that is not deleted is followed to where it is shifted to. -/
theorem Follows.of_notMem (kept : source ∉ script.deletions) :
    script.Follows moves source (shift script.insertions (unshift script.deletions source)) :=
  Or.inl ⟨kept, rfl⟩

/-- An item that is not inserted comes from where it was kept. -/
theorem follows_of_notMem_insertions (free : target ∉ script.insertions) :
    script.Follows moves (shift script.deletions (unshift script.insertions target)) target := by
  refine Or.inl ⟨shift_notMem _ _, ?_⟩
  rw [unshift_shift, shift_unshift free]

/-- An item that is not inserted comes from where it is shifted back to. -/
theorem Follows.eq_of_notMem_insertions (paired : script.Paired moves)
    (follows : script.Follows moves source target) (free : target ∉ script.insertions) :
    source = shift script.deletions (unshift script.insertions target) := by
  rcases follows with ⟨kept, rfl⟩ | moved
  · rw [unshift_shift, shift_unshift kept]
  · exact absurd (paired.inserted _ _ moved) free

/-- A deleted item that can be followed was moved. -/
theorem Follows.moved (follows : script.Follows moves source target)
    (deleted : source ∈ script.deletions) : moves source target :=
  follows.resolve_left fun kept => kept.1 deleted

/-- An inserted item that can be followed was moved. -/
theorem Follows.moved_of_inserted (follows : script.Follows moves source target)
    (inserted : target ∈ script.insertions) : moves source target := by
  refine follows.resolve_left fun kept => ?_
  rw [← kept.2] at inserted
  exact shift_notMem _ _ inserted

/-- An item goes to one place. -/
theorem Follows.functional {target' : ℕ} (paired : script.Paired moves)
    (follows : script.Follows moves source target)
    (follows' : script.Follows moves source target') :
    target = target' := by
  by_cases deleted : source ∈ script.deletions
  · exact paired.functional _ _ _ (follows.moved deleted) (follows'.moved deleted)
  · have stays : ∀ index, script.Follows moves source index →
        index = shift script.insertions (unshift script.deletions source) := by
      intro index follows
      rcases follows with kept | moved
      · exact kept.2.symm
      · exact absurd (paired.deleted _ _ moved) deleted
    rw [stays _ follows, stays _ follows']

/-- Two items do not go to one place. -/
theorem Follows.injective {source' : ℕ} (paired : script.Paired moves)
    (follows : script.Follows moves source target)
    (follows' : script.Follows moves source' target) :
    source = source' := by
  by_cases inserted : target ∈ script.insertions
  · exact paired.injective _ _ _ (follows.moved_of_inserted inserted)
      (follows'.moved_of_inserted inserted)
  · rw [follows.eq_of_notMem_insertions paired inserted,
      follows'.eq_of_notMem_insertions paired inserted]

/-- What two scripts keep is kept in the one made of both. -/
theorem shift_append (first second : Script) (index : ℕ) :
    shift first.insertions (unshift first.deletions (shift (first.append second).deletions index)) =
        shift second.deletions (shift (eraseAt first.insertions second.deletions) index) ∧
      shift (first.append second).insertions index =
        shift second.insertions (shift (eraseAt first.insertions second.deletions) index) := by
  have deletions : shift (first.append second).deletions index =
      shift first.deletions (shift (eraseAt second.deletions first.insertions) index) :=
    (shift_shift _ _ _).symm
  refine ⟨?_, (shift_shift _ _ _).symm⟩
  rw [deletions, unshift_shift, eraseAt, eraseAt, shift_shift_of_sdiff, shift_shift_of_sdiff,
    Finset.union_comm]

/-- What both scripts keep is deleted by neither. -/
theorem notMem_append_deletions :
    source ∉ (first.append second).deletions ↔ source ∉ first.deletions ∧
      shift first.insertions (unshift first.deletions source) ∉ second.deletions := by
  change source ∉ insertAt (eraseAt second.deletions first.insertions) first.deletions ↔ _
  rw [mem_insertAt, not_or, mem_eraseAt]

/-- **An item is followed through two scripts** by following it through one and then the
other. -/
theorem follows_append (paired : first.Paired moves) (paired' : second.Paired moves') :
    (first.append second).Follows (first.movesAppend second moves moves') source target ↔
      ∃ middle, first.Follows moves source middle ∧ second.Follows moves' middle target := by
  constructor
  · rintro (⟨kept, rfl⟩ | ⟨middle, moved, follows⟩ | ⟨middle, free, moved, rfl⟩)
    · obtain ⟨kept₁, kept₂⟩ := notMem_append_deletions.mp kept
      refine ⟨_, Follows.of_notMem kept₁, Or.inl ⟨kept₂, ?_⟩⟩
      obtain ⟨between, after⟩ :=
        shift_append first second (unshift (first.append second).deletions source)
      rw [shift_unshift kept] at between
      rw [after, between, unshift_shift]
    · exact ⟨middle, Or.inr moved, follows⟩
    · exact ⟨middle, follows_of_notMem_insertions free, Or.inr moved⟩
  · rintro ⟨middle, begins, continues⟩
    by_cases moved : middle ∈ first.insertions
    · exact Or.inr (Or.inl ⟨middle, begins.moved_of_inserted moved, continues⟩)
    · have origin := begins.eq_of_notMem_insertions paired moved
      by_cases moved' : middle ∈ second.deletions
      · exact Or.inr (Or.inr ⟨middle, moved, continues.moved moved', origin.symm⟩)
      · rcases continues with ⟨kept', rfl⟩ | moved''
        · have place : shift first.insertions (unshift first.deletions source) = middle := by
            rw [origin, unshift_shift, shift_unshift moved]
          have kept : source ∉ (first.append second).deletions := by
            rw [notMem_append_deletions, place, origin]
            exact ⟨shift_notMem _ _, kept'⟩
          refine Or.inl ⟨kept, ?_⟩
          obtain ⟨between, after⟩ :=
            shift_append first second (unshift (first.append second).deletions source)
          rw [shift_unshift kept, place] at between
          rw [after, between, unshift_shift]
        · exact absurd (paired'.deleted _ _ moved'') moved'

/-- The moves of two scripts fit the one made of both. -/
theorem Paired.append (paired : first.Paired moves) (paired' : second.Paired moves') :
    (first.append second).Paired (first.movesAppend second moves moves') := by
  have deleted : ∀ source target, first.movesAppend second moves moves' source target →
      source ∈ (first.append second).deletions := by
    rintro source target (⟨middle, moved, _⟩ | ⟨middle, free, moved, rfl⟩)
    · exact Finset.mem_union_left _ (paired.deleted _ _ moved)
    · refine Finset.mem_union_right _ (Finset.mem_image_of_mem _ ?_)
      exact (unshift_mem_eraseAt free).mpr (paired'.deleted _ _ moved)
  have through (source target : ℕ) :
      (first.append second).Follows (first.movesAppend second moves moves') source target ↔
        ∃ middle, first.Follows moves source middle ∧ second.Follows moves' middle target :=
    follows_append paired paired'
  refine ⟨deleted, ?_, ?_, ?_⟩
  · rintro source target (⟨middle, moved, follows⟩ | ⟨middle, free, moved, _⟩)
    · change target ∈ insertAt _ _
      rw [mem_insertAt]
      rcases follows with ⟨kept, rfl⟩ | moved'
      · refine Or.inr ?_
        rw [unshift_shift, unshift_mem_eraseAt kept]
        exact paired.inserted _ _ moved
      · exact Or.inl (paired'.inserted _ _ moved')
    · exact Finset.mem_union_left _ (paired'.inserted _ _ moved)
  · intro source first second moved moved'
    obtain ⟨middle, begins, continues⟩ := (through _ _).mp (Or.inr moved)
    obtain ⟨middle', begins', continues'⟩ := (through _ _).mp (Or.inr moved')
    obtain rfl := begins.functional paired begins'
    exact continues.functional paired' continues'
  · intro first second target moved moved'
    obtain ⟨middle, begins, continues⟩ := (through _ _).mp (Or.inr moved)
    obtain ⟨middle', begins', continues'⟩ := (through _ _).mp (Or.inr moved')
    obtain rfl := continues.injective paired' continues'
    exact begins.injective paired begins'

/-- A script without the item at a source and a target. -/
def erase (script : Script) (source target : ℕ) : Script :=
  ⟨script.deletions.erase source, script.insertions.erase target⟩

/-- Items taken out and put back where they were are followed when they are left there. -/
theorem follows_erase (paired : script.Paired moves) (moved : moves source target)
    (back : unshift script.deletions source = unshift script.insertions target) (index place : ℕ) :
    (script.erase source target).Follows
        (fun index place => moves index place ∧ index ≠ source) index place ↔
      script.Follows moves index place := by
  have deleted := paired.deleted _ _ moved
  have inserted := paired.inserted _ _ moved
  have stays : shift (script.insertions.erase target)
      (unshift (script.deletions.erase source) source) = target := by
    rw [unshift_erase_self, back, ← unshift_erase_self, shift_unshift (Finset.notMem_erase _ _)]
  by_cases here : index = source
  · subst here
    constructor
    · rintro (⟨_, rfl⟩ | ⟨_, other⟩)
      · exact Or.inr (stays.symm ▸ moved)
      · exact absurd rfl other
    · intro follows
      obtain rfl := paired.functional _ _ _ (follows.moved deleted) moved
      exact Or.inl ⟨Finset.notMem_erase _ _, stays⟩
  · have same : ∀ position, index ∉ script.deletions →
        (shift (script.erase source target).insertions
          (unshift (script.erase source target).deletions index) = position ↔
        shift script.insertions (unshift script.deletions index) = position) := by
      intro position kept
      have between : unshift (script.deletions.erase source) index =
          shift {unshift script.deletions source} (unshift script.deletions index) := by
        have split := shift_erase_shift deleted (unshift script.deletions index)
        rw [shift_unshift kept] at split
        rw [← unshift_shift (script.deletions.erase source) (shift {unshift script.deletions source}
          (unshift script.deletions index)), split]
      change shift (script.insertions.erase target)
          (unshift (script.deletions.erase source) index) =
        position ↔ _
      rw [between, back, shift_erase_shift inserted]
    have member : index ∉ (script.erase source target).deletions ↔ index ∉ script.deletions := by
      change index ∉ script.deletions.erase source ↔ _
      rw [Finset.mem_erase, not_and]
      exact ⟨fun free => free here, fun free _ => free⟩
    rw [Follows, Follows, member]
    simp only [here, ne_eq, not_false_eq_true, and_true]
    refine or_congr_left (and_congr_right fun kept => same place kept)

/-- The other moves are paired when one is taken out. -/
theorem Paired.erase (paired : script.Paired moves) (moved : moves source target) :
    (script.erase source target).Paired fun index place => moves index place ∧ index ≠ source := by
  refine ⟨fun index place other => ?_, fun index place other => ?_,
    fun index first second one two =>
    paired.functional _ _ _ one.1 two.1, fun first second place one two =>
    paired.injective _ _ _ one.1 two.1⟩
  · exact Finset.mem_erase.mpr ⟨other.2, paired.deleted _ _ other.1⟩
  · refine Finset.mem_erase.mpr ⟨fun same => other.2 ?_, paired.inserted _ _ other.1⟩
    exact paired.injective _ _ _ (same ▸ other.1) moved

end Follows

end Script

/-- What is left of a list, by the indices that are free from a start on. -/
theorem getElem?_dropAt_from (indices : List ℕ) (start : ℕ) (items : List α) (index : ℕ) :
    (dropAt indices start items)[index]? =
      items[Nat.nth (fun position => position + start ∉ indices) index]? := by
  induction items generalizing start index with
  | nil => simp [dropAt]
  | cons item rest ih =>
      have infinite (start : ℕ) :
          (Set.ofPred fun position => position + start ∉ indices).Infinite := by
        have finite : (Set.ofPred fun position => position + start ∈ indices).Finite :=
          Set.Finite.subset (indices.toFinset.finite_toSet.preimage
            (add_left_injective start).injOn) fun position inside => by simpa using inside
        exact finite.infinite_compl
      have count (position : ℕ) :
          Nat.count (fun position => position + start ∉ indices) (position + 1) =
            Nat.count (fun position => position + (start + 1) ∉ indices) position +
              if start ∉ indices then 1 else 0 := by
        rw [Nat.count_succ']
        simp only [Nat.zero_add, Nat.add_right_comm _ 1 start, Nat.add_assoc]
      have later (index : ℕ) := (nth_eq_iff (infinite (start + 1)) index _).mp rfl
      rw [dropAt]
      by_cases listed : start ∈ indices
      · have moved : Nat.nth (fun position => position + start ∉ indices) index =
            Nat.nth (fun position => position + (start + 1) ∉ indices) index + 1 := by
          apply (nth_eq_iff (infinite start) _ _).mpr
          rw [count, (later index).2, if_neg (not_not_intro listed)]
          exact ⟨by simpa only [Nat.add_right_comm _ 1 start, Nat.add_assoc] using (later index).1,
            rfl⟩
        rw [if_pos listed, ih, moved, List.getElem?_cons_succ]
      · rw [if_neg listed]
        cases index with
        | zero =>
            have first : Nat.nth (fun position => position + start ∉ indices) 0 = 0 :=
              (nth_eq_iff (infinite start) _ _).mpr ⟨by simpa using listed, Nat.count_zero _⟩
            rw [first, List.getElem?_cons_zero, List.getElem?_cons_zero]
        | succ index =>
            have moved : Nat.nth (fun position => position + start ∉ indices) (index + 1) =
                Nat.nth (fun position => position + (start + 1) ∉ indices) index + 1 := by
              apply (nth_eq_iff (infinite start) _ _).mpr
              rw [count, (later index).2, if_pos listed]
              exact ⟨by simpa only [Nat.add_right_comm _ 1 start, Nat.add_assoc] using
                (later index).1, rfl⟩
            rw [List.getElem?_cons_succ, ih, moved, List.getElem?_cons_succ]

/-- What is left after dropping items is shifted past them. -/
theorem getElem?_dropAt (indices : List ℕ) (items : List α) (index : ℕ) :
    (dropAt indices 0 items)[index]? = items[shift indices.toFinset index]? := by
  rw [getElem?_dropAt_from, shift]
  simp

/-- As many items are left as there are places before the end. -/
theorem length_dropAt (indices : List ℕ) (items : List α) :
    (dropAt indices 0 items).length = unshift indices.toFinset items.length := by
  apply eq_of_forall_lt_iff
  intro index
  rw [← shift_lt_iff, ← not_iff_not, Nat.not_lt, Nat.not_lt, ← List.getElem?_eq_none_iff,
    ← List.getElem?_eq_none_iff, getElem?_dropAt]

/-- Items that are there are dropped one by one. -/
theorem length_dropAt_add {indices : List ℕ} (distinct : indices.Nodup) {items : List α}
    (inside : ∀ index ∈ indices, index < items.length) :
    (dropAt indices 0 items).length + indices.length = items.length := by
  have counted := unshift_add_card indices.toFinset items.length
  rwa [Finset.filter_true_of_mem fun index member => inside index (List.mem_toFinset.mp member),
    List.toFinset_card_of_nodup distinct, ← length_dropAt] at counted

/-- **A script is a batch of edits** once its indices are listed, with items to refresh
among those that it keeps. -/
theorem Script.Describes.edits {deletions insertions modifications : List ℕ} {old new : List α}
    (describes : Script.Describes ⟨deletions.toFinset, insertions.toFinset⟩ old new)
    (deletes : deletions.Nodup) (inserts : insertions.Nodup)
    (refreshes : ∀ index ∈ modifications, index < old.length ∧ index ∉ deletions) :
    Edits.Describes ⟨deletions, insertions, modifications⟩ old new := by
  have deleted : ∀ index ∈ deletions, index < old.length := fun index member =>
    describes.deleted index (List.mem_toFinset.mpr member)
  have inserted : ∀ index ∈ insertions, index < new.length := fun index member =>
    describes.inserted index (List.mem_toFinset.mpr member)
  have kept : dropAt deletions 0 old = dropAt insertions 0 new := by
    apply List.ext_getElem?
    intro index
    rw [getElem?_dropAt, getElem?_dropAt, describes.kept]
  refine ⟨⟨deleted, inserted, refreshes, ?_⟩, kept⟩
  have first := length_dropAt_add deletes deleted
  have second := length_dropAt_add inserts inserted
  rw [kept] at first
  change new.length + deletions.length = old.length + insertions.length
  omega

end Foundation

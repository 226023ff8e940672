import Mathlib.Data.List.Basic
import Mathlib.Data.List.Forall2
import Mathlib.Tactic.Common

/-! # Batches of edits by index

A batch of edits turns one list into another: it drops the items at some indices of the
old list and puts new items at some indices of the new list, and the items that are
kept stay in their order (`Foundation.Edits.Describes`). A second list that corresponds
to the old one item by item is updated by the same batch, without seeing either list,
and then corresponds to the new one (`Foundation.Edits.forall₂_apply`).
-/

namespace Foundation

variable {α β : Type*}

/-- The items whose index, counted from a start, is not listed. -/
def dropAt (indices : List Nat) (start : Nat) : List α → List α
  | [] => []
  | item :: rest =>
      if start ∈ indices then dropAt indices (start + 1) rest
      else item :: dropAt indices (start + 1) rest

/-- The list with the items at the listed indices replaced. -/
def fillAt (fill : α) (indices : List Nat) (start : Nat) : List α → List α
  | [] => []
  | item :: rest =>
      (if start ∈ indices then fill else item) :: fillAt fill indices (start + 1) rest

/-- A list of the given length: new items at the listed indices, the old items, in
their order, elsewhere. -/
def spread (fill : α) (indices : List Nat) (start : Nat) : Nat → List α → List α
  | 0, _ => []
  | length + 1, items =>
      if start ∈ indices then fill :: spread fill indices (start + 1) length items
      else match items with
        | [] => fill :: spread fill indices (start + 1) length []
        | item :: rest => item :: spread fill indices (start + 1) length rest

section Pointwise

variable {relation : α → β → Prop} {first : List α} {second : List β}

theorem forall₂_dropAt (indices : List Nat) (start : Nat)
    (related : List.Forall₂ relation first second) :
    List.Forall₂ relation (dropAt indices start first) (dropAt indices start second) := by
  induction related generalizing start with
  | nil => exact .nil
  | cons here _ ih =>
      rw [dropAt, dropAt]
      split
      · exact ih (start + 1)
      · exact .cons here (ih (start + 1))

theorem forall₂_fillAt {fill : α} (fits : ∀ item, relation fill item) (indices : List Nat)
    (start : Nat) (related : List.Forall₂ relation first second) :
    List.Forall₂ relation (fillAt fill indices start first) second := by
  induction related generalizing start with
  | nil => exact .nil
  | cons here _ ih =>
      rw [fillAt]
      split
      · exact .cons (fits _) (ih (start + 1))
      · exact .cons here (ih (start + 1))

/-- What corresponds to the kept items of a list corresponds to the whole list once the
gaps are filled. -/
theorem forall₂_spread {fill : α} (fits : ∀ item, relation fill item) (indices : List Nat)
    (start : Nat) (related : List.Forall₂ relation first (dropAt indices start second)) :
    List.Forall₂ relation (spread fill indices start second.length first) second := by
  induction second generalizing start first with
  | nil => exact .nil
  | cons item rest ih =>
      rw [List.length_cons]
      by_cases listed : start ∈ indices
      · simp only [dropAt, spread, if_pos listed] at related ⊢
        exact .cons (fits item) (ih (start + 1) related)
      · simp only [dropAt, spread, if_neg listed] at related ⊢
        cases related with
        | cons here later => exact .cons here (ih (start + 1) later)

end Pointwise

theorem dropAt_map (f : α → β) (indices : List Nat) (start : Nat) (items : List α) :
    dropAt indices start (items.map f) = (dropAt indices start items).map f := by
  induction items generalizing start with
  | nil => rfl
  | cons item rest ih =>
      rw [List.map_cons, dropAt, dropAt]
      split
      · exact ih (start + 1)
      · rw [List.map_cons, ih]

theorem dropAt_sublist (indices : List Nat) (start : Nat) (items : List α) :
    (dropAt indices start items).Sublist items := by
  induction items generalizing start with
  | nil => exact List.Sublist.refl _
  | cons item rest ih =>
      rw [dropAt]
      split
      · exact (ih (start + 1)).cons _
      · exact (ih (start + 1)).cons_cons _

/-- Lists that agree by one name of their items agree by every other one that the first one
determines. -/
theorem map_eq_of_map_eq {γ δ : Type*} {first : List α} {second : List β} {f : α → γ} {f' : β → γ}
    {g : α → δ} {g' : β → δ} (same : first.map f = second.map f')
    (agree : ∀ item ∈ first, ∀ other ∈ second, f item = f' other → g item = g' other) :
    first.map g = second.map g' := by
  induction first generalizing second with
  | nil =>
      cases second with
      | nil => rfl
      | cons other rest => cases same
  | cons item rest ih =>
      cases second with
      | nil => cases same
      | cons other others =>
          obtain ⟨here, later⟩ := List.cons.inj same
          rw [List.map_cons, List.map_cons,
            agree item List.mem_cons_self other List.mem_cons_self here,
            ih later fun item member other member' =>
              agree item (List.mem_cons_of_mem _ member) other (List.mem_cons_of_mem _ member')]

theorem length_spread (fill : α) (indices : List Nat) (start length : Nat) (items : List α) :
    (spread fill indices start length items).length = length := by
  induction length generalizing start items with
  | zero => rfl
  | succ length ih =>
      cases items <;> simp only [spread] <;> split <;> rw [List.length_cons, ih]

/-- A batch of edits: indices of the old list to drop and to refresh, and indices of
the new list to insert at. -/
structure Edits where
  deletions : List Nat
  insertions : List Nat
  modifications : List Nat

namespace Edits

/-- A batch fits an old and a new count: its indices are inside, it refreshes nothing
that it drops, and the counts differ by the insertions and the deletions. -/
def Balanced (edits : Edits) (old new : Nat) : Prop :=
  (∀ index ∈ edits.deletions, index < old) ∧ (∀ index ∈ edits.insertions, index < new) ∧
    (∀ index ∈ edits.modifications, index < old ∧ index ∉ edits.deletions) ∧
    new + edits.deletions.length = old + edits.insertions.length

instance (edits : Edits) (old new : Nat) : Decidable (edits.Balanced old new) :=
  inferInstanceAs (Decidable (_ ∧ _ ∧ _ ∧ _))

/-- A batch leads from an old list to a new one. -/
structure Describes (edits : Edits) (old new : List α) : Prop where
  balanced : edits.Balanced old.length new.length
  kept : dropAt edits.deletions 0 old = dropAt edits.insertions 0 new

/-- The batch, made on a list that corresponds to the old one: refreshed and inserted
places get a new item. -/
def apply (edits : Edits) (fill : β) (length : Nat) (items : List β) : List β :=
  spread fill edits.insertions 0 length
    (dropAt edits.deletions 0 (fillAt fill edits.modifications 0 items))

theorem length_apply (edits : Edits) (fill : β) (length : Nat) (items : List β) :
    (edits.apply fill length items).length = length := length_spread _ _ _ _ _

/-- **A batch carries a correspondence over** from the old list to the new one, if new
items correspond to everything. -/
theorem forall₂_apply {edits : Edits} {old new : List α} (describes : edits.Describes old new)
    {relation : β → α → Prop} {fill : β} (fits : ∀ item, relation fill item) {items : List β}
    (related : List.Forall₂ relation items old) :
    List.Forall₂ relation (edits.apply fill new.length items) new := by
  apply forall₂_spread fits
  rw [← describes.kept]
  exact forall₂_dropAt _ _ (forall₂_fillAt fits _ _ related)

/-- A batch that leads from one list to another by one name of the items does so by every
other one that the first one determines. -/
theorem Describes.rename {γ δ : Type*} {edits : Edits} {old : List α} {new : List β} {f : α → γ}
    {f' : β → γ} {g : α → δ} {g' : β → δ} (describes : edits.Describes (old.map f) (new.map f'))
    (agree : ∀ item ∈ old, ∀ other ∈ new, f item = f' other → g item = g' other) :
    edits.Describes (old.map g) (new.map g') where
  balanced := by
    rw [List.length_map, List.length_map]
    simpa only [List.length_map] using describes.balanced
  kept := by
    have kept := describes.kept
    rw [dropAt_map, dropAt_map] at kept ⊢
    exact map_eq_of_map_eq kept fun item member other member' =>
      agree item ((dropAt_sublist _ _ _).subset member) other
        ((dropAt_sublist _ _ _).subset member')

end Edits

end Foundation

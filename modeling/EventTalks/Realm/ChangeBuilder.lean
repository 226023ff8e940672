import EventTalks.Foundation.Scripts
import EventTalks.Foundation.SlotTable
import EventTalks.Realm.RangeBuilder

/-! # Merging changes of a collection

The changes of a collection are the indices deleted from the old one, inserted into the new
one and modified there, and the moves among the deletions and insertions. Changes made one
after the other are merged in place (`EventTalks.Realm.CollectionChangeBuilder.merge`): the
merged changes lead from the first collection to the last one, and an item that can be
followed through them is modified if it was before or after
(`EventTalks.Realm.Tracks.merge`). Modifications of single columns are handled like those
of whole items, and left out.
-/

namespace EventTalks.Realm

open Foundation

variable {α : Type*}

/-- An item that left an index of the old collection for one of the new collection; the
source's names for these, `from` and `to`, are reserved. -/
structure Move where
  source : Nat
  target : Nat
deriving DecidableEq, Repr

structure CollectionChangeBuilder where
  deletions : IndexSet
  insertions : IndexSet
  modifications : IndexSet
  moves : List Move
  /-- While a table's changes are read: the old index of each row that was moved, by its
  new one. -/
  moveMapping : List (Nat × Nat)

def IndexSet.empty (set : IndexSet) : Bool := set.ranges.isEmpty

/-- A set that is empty has no indices. -/
theorem IndexSet.toFinset_of_empty {set : IndexSet} (empty : set.empty = true) :
    set.toFinset = ∅ :=
  IndexSet.toFinset_of_isEmpty empty

namespace CollectionChangeBuilder

/-- No changes. -/
def none : CollectionChangeBuilder := ⟨.clear, .clear, .clear, [], []⟩

def empty (changes : CollectionChangeBuilder) : Bool :=
  changes.deletions.empty && changes.insertions.empty && changes.modifications.empty &&
    changes.moves.isEmpty

/-- An item that moved on stays modified. -/
def keepModified (modifications : IndexSet) (modified : IndexSet) (move : Move) : IndexSet :=
  if modifications.contains move.source then modified.add move.target else modified

/-- The old moves after new changes. A move of an item that moved on ends where the new
move does, which is taken out of the new ones; a move to an index that was deleted is
dropped; others are shifted. -/
def followMoves (modifications deletions insertions : IndexSet) :
    List Move → List Move → IndexSet → List Move × List Move × IndexSet
  | [], moves, modified => ([], moves, modified)
  | old :: rest, moves, modified =>
      let position := moves.findIdx fun move => old.target = move.source
      match moves[position]? with
      | some move =>
          let (followed, moves, modified) := followMoves modifications deletions insertions rest
            (moveLastOver moves position) (keepModified modifications modified move)
          (⟨old.source, move.target⟩ :: followed, moves, modified)
      | .none =>
          let (followed, moves, modified) :=
            followMoves modifications deletions insertions rest moves modified
          if deletions.contains old.target then (followed, moves, modified)
          else (⟨old.source, insertions.shift (deletions.unshift old.target)⟩ :: followed, moves,
            modified)

/-- Moves that put an item back where it was are dropped with their deletion and insertion. -/
def cleanUp : List Move → IndexSet → IndexSet → List Move × IndexSet × IndexSet
  | [], deletions, insertions => ([], deletions, insertions)
  | move :: rest, deletions, insertions =>
      if move.source - deletions.count 0 move.source ≠
          move.target - insertions.count 0 move.target then
        let (moves, deletions, insertions) := cleanUp rest deletions insertions
        (move :: moves, deletions, insertions)
      else cleanUp rest (deletions.remove move.source) (insertions.remove move.target)

/-- The moves that are none any more are left out. The source counts by the numbers that are kept
with chunks, which may be wrong where there are moves (`Realm.ChunkedSet`). -/
def cleanUpStaleMoves (changes : CollectionChangeBuilder) : CollectionChangeBuilder :=
  let (moves, deletions, insertions) :=
    cleanUp changes.moves changes.deletions changes.insertions
  { changes with moves, deletions, insertions }

/-- The old moves after new changes, if these shift anything. -/
def followOld (changes new : CollectionChangeBuilder) : List Move × List Move × IndexSet :=
  if new.moves.isEmpty && new.deletions.empty && new.insertions.empty then
    (changes.moves, new.moves, new.modifications)
  else followMoves changes.modifications new.deletions new.insertions changes.moves new.moves
    new.modifications

/-- New moves of items that were inserted before are no moves: they are only inserted
elsewhere. -/
def dropInserted (insertions : IndexSet) (moves : List Move) : List Move :=
  if insertions.empty || moves.isEmpty then moves
  else moves.filter fun move => !insertions.contains move.source

/-- New moves begin at the old index of their item. -/
def startEarlier (deletions insertions : IndexSet) (moves : List Move) : List Move :=
  if deletions.empty && insertions.empty then moves
  else moves.map fun move => ⟨deletions.shift (insertions.unshift move.source), move.target⟩

/-- New changes are merged into old ones. -/
def merge (changes new : CollectionChangeBuilder) : CollectionChangeBuilder :=
  if new.empty then changes
  else if changes.empty then new
  else
    let (old, moves, modified) := changes.followOld new
    let moves := dropInserted changes.insertions moves
    let modified := if changes.modifications.empty || moves.isEmpty then modified
      else moves.foldl (keepModified changes.modifications) modified
    let moves := startEarlier changes.deletions changes.insertions moves
    let merged := cleanUpStaleMoves
      { changes with
        moves := old ++ moves
        deletions := changes.deletions.addShiftedBy changes.insertions new.deletions
        insertions := (changes.insertions.eraseAll new.deletions).insertAll new.insertions }
    { merged with
      modifications := ((changes.modifications.eraseAll new.deletions).shiftForInsertAll
        new.insertions).addSet modified }

end CollectionChangeBuilder

open CollectionChangeBuilder

/-- The script of two index sets. -/
def script (deletions insertions : IndexSet) : Script :=
  ⟨deletions.toFinset, insertions.toFinset⟩

/-- The moves of a list, from index to index. -/
def Moved (moves : List Move) (source target : Nat) : Prop := ⟨source, target⟩ ∈ moves

/-- Deletions and insertions lead from an old list to a new one, and the moves among them
put items back. -/
structure Leads (deletions insertions : IndexSet) (moves : List Move) (old new : List α) :
    Prop where
  describes : (script deletions insertions).Describes old new
  paired : (script deletions insertions).Paired (Moved moves)
  distinct : moves.Nodup
  genuine : ∀ source target, Moved moves source target → old[source]? = new[target]?

namespace CollectionChangeBuilder

/-- Where an item of the old collection is in the new one. -/
def Follows (changes : CollectionChangeBuilder) (source target : Nat) : Prop :=
  (script changes.deletions changes.insertions).Follows (Moved changes.moves) source target

end CollectionChangeBuilder

/-- Changes lead from an old collection to a new one. What is modified is in the new
collection, and an item that can be followed is modified if it changed. -/
structure Tracks (changes : CollectionChangeBuilder) (old new : List α) (changed : α → Prop) :
    Prop extends Leads changes.deletions changes.insertions changes.moves old new where
  within : ∀ index ∈ changes.modifications.toFinset, index < new.length
  modified : ∀ source target item, changes.Follows source target → new[target]? = some item →
    (target ∈ changes.modifications.toFinset ↔ changed item)

section FollowMoves

variable {modifications deletions insertions modified : IndexSet} {olds moves : List Move}

/-- No two moves of a list begin at one index. -/
def Begun (moves : List Move) : Prop :=
  ∀ first ∈ moves, ∀ second ∈ moves, first.source = second.source → first = second

/-- The move that is looked up is taken out, and no other. -/
theorem mem_moveLastOver {position : Nat} {move : Move} (distinct : moves.Nodup)
    (found : moves[position]? = some move) :
    (moveLastOver moves position).Nodup ∧
      ∀ other, other ∈ moveLastOver moves position ↔ other ∈ moves ∧ other ≠ move := by
  obtain ⟨inside, rfl⟩ := List.getElem?_eq_some_iff.mp found
  have same := moveLastOver_perm moves position inside
  rw [← distinct.erase_getElem] at same
  refine ⟨same.nodup_iff.mpr (distinct.erase _), fun other => ?_⟩
  rw [same.mem_iff, distinct.mem_erase_iff, and_comm]

/-- Where the item of an old move goes. -/
def goes (moves : List Move) (deletions insertions : IndexSet) (middle target : Nat) : Prop :=
  ⟨middle, target⟩ ∈ moves ∨ ((∀ move ∈ moves, move.source ≠ middle) ∧
    middle ∉ deletions.toFinset ∧
    Positions.shift insertions.toFinset (Positions.unshift deletions.toFinset middle) = target)

/-- The target of a move is modified when its source was. -/
theorem mem_keepModified {move : Move} {index : Nat} :
    index ∈ (keepModified modifications modified move).toFinset ↔ index ∈ modified.toFinset ∨
      (move.source ∈ modifications.toFinset ∧ move.target = index) := by
  rw [keepModified]
  by_cases before : modifications.contains move.source = true
  · have member := IndexSet.contains_iff.mp before
    rw [if_pos before, IndexSet.toFinset_add, Finset.mem_insert, or_comm, eq_comm]
    simp only [member, true_and]
  · have other : move.source ∉ modifications.toFinset := fun member =>
      before (IndexSet.contains_iff.mpr member)
    rw [if_neg before]
    simp only [other, false_and, or_false]

/-- No two moves begin at one index when one is taken out. -/
theorem Begun.moveLastOver {position : Nat} {move : Move} (begun : Begun moves)
    (distinct : moves.Nodup) (found : moves[position]? = some move) :
    Begun (Foundation.moveLastOver moves position) := by
  have members := (mem_moveLastOver distinct found).2
  intro first here second there
  exact begun first ((members first).mp here).1 second ((members second).mp there).1

/-- Without the move of one item, the others go where they went. -/
theorem goes_moveLastOver {position middle target : Nat} {move : Move} (distinct : moves.Nodup)
    (found : moves[position]? = some move) (other : middle ≠ move.source) :
    goes (moveLastOver moves position) deletions insertions middle target ↔
      goes moves deletions insertions middle target := by
  have members := (mem_moveLastOver distinct found).2
  have listed : ⟨middle, target⟩ ∈ moveLastOver moves position ↔
      (⟨middle, target⟩ : Move) ∈ moves := by
    rw [members]
    refine and_iff_left fun same => other ?_
    rw [← same]
  have unlisted : (∀ next ∈ moveLastOver moves position, next.source ≠ middle) ↔
      ∀ next ∈ moves, next.source ≠ middle := by
    constructor
    · intro all next member
      by_cases same : next = move
      · rw [same]
        exact other.symm
      · exact all next ((members next).mpr ⟨member, same⟩)
    · exact fun all next member => all next ((members next).mp member).1
  rw [goes, goes, listed, unlisted]

/-- An item that is moved goes where it is moved to. -/
theorem goes_of_mem {move : Move} {target : Nat} (begun : Begun moves) (member : move ∈ moves) :
    goes moves deletions insertions move.source target ↔ target = move.target := by
  constructor
  · rintro (listed | ⟨unlisted, _⟩)
    · rw [← begun _ listed _ member rfl]
    · exact absurd rfl (unlisted _ member)
  · rintro rfl
    exact Or.inl member

/-- An item that is not moved goes where it is shifted to, unless it is deleted. -/
theorem goes_of_unlisted {middle target : Nat}
    (unlisted : ∀ move ∈ moves, move.source ≠ middle) :
    goes moves deletions insertions middle target ↔ middle ∉ deletions.toFinset ∧
      Positions.shift insertions.toFinset (Positions.unshift deletions.toFinset middle) =
        target := by
  constructor
  · rintro (listed | ⟨_, stays⟩)
    · exact absurd rfl (unlisted _ listed)
    · exact stays
  · exact fun stays => Or.inr ⟨unlisted, stays⟩

/-- **Old moves are followed** through new changes, and only moves that go on are taken
out of the new ones. -/
theorem followMoves_spec (distinct : moves.Nodup) (begun : Begun moves)
    (ended : (olds.map Move.target).Nodup) :
    let followed := followMoves modifications deletions insertions olds moves modified
    (∀ source target, ⟨source, target⟩ ∈ followed.1 ↔
      ∃ middle, ⟨source, middle⟩ ∈ olds ∧ goes moves deletions insertions middle target) ∧
    (followed.1.map Move.source).Sublist (olds.map Move.source) ∧
    followed.2.1.Nodup ∧
    (∀ move, move ∈ followed.2.1 ↔ move ∈ moves ∧ move.source ∉ olds.map Move.target) ∧
    ∀ index, index ∈ followed.2.2.toFinset ↔ index ∈ modified.toFinset ∨ ∃ move ∈ moves,
      move.source ∈ olds.map Move.target ∧ move.source ∈ modifications.toFinset ∧
        move.target = index := by
  induction olds generalizing moves modified with
  | nil => simp [followMoves, distinct]
  | cons old rest ih =>
      obtain ⟨new, ended⟩ := List.nodup_cons.mp ended
      rw [followMoves]
      cases found : moves[moves.findIdx fun move => old.target = move.source]? with
      | some move =>
          obtain ⟨inside, here⟩ := List.getElem?_eq_some_iff.mp found
          have going : old.target = move.source := by
            rw [← here]
            simpa using @List.findIdx_getElem _ _ moves inside
          have among : move ∈ moves := List.mem_of_getElem? found
          obtain ⟨left, members⟩ := mem_moveLastOver distinct found
          obtain ⟨follows, sources, remaining, rests, modifies⟩ :=
            ih left
              (begun.moveLastOver distinct found) ended
          refine ⟨fun source target => ?_, ?_, remaining, fun other => ?_, fun index => ?_⟩
          · rw [List.mem_cons, follows]
            constructor
            · rintro (same | ⟨middle, listed, goes⟩)
              · obtain ⟨rfl, rfl⟩ := Move.mk.inj same
                refine ⟨old.target, List.mem_cons_self, ?_⟩
                rw [going, goes_of_mem begun among]
              · refine ⟨middle, List.mem_cons_of_mem _ listed, ?_⟩
                rwa [← goes_moveLastOver distinct found]
                intro same
                subst same
                exact new (going ▸ List.mem_map_of_mem listed)
            · rintro ⟨middle, listed, goes⟩
              rcases List.mem_cons.mp listed with same | listed
              · obtain rfl : middle = old.target := congrArg Move.target same
                obtain rfl : source = old.source := congrArg Move.source same
                rw [going, goes_of_mem begun among] at goes
                exact Or.inl (by rw [goes])
              · refine Or.inr ⟨middle, listed, ?_⟩
                rwa [goes_moveLastOver distinct found]
                intro same
                subst same
                exact new (going ▸ List.mem_map_of_mem listed)
          · exact sources.cons_cons _
          · rw [rests, members, List.map_cons, List.mem_cons, not_or, and_assoc]
            refine and_congr_right fun member => and_congr_left fun _ => ?_
            rw [going]
            exact ⟨fun other same => other (begun _ member _ among same), fun other same =>
              other (congrArg _ same)⟩
          · rw [modifies, mem_keepModified, or_assoc]
            refine or_congr_right ?_
            constructor
            · rintro (⟨before, rfl⟩ | ⟨next, member, listed, before, rfl⟩)
              · exact ⟨move, among, by simp [going], before, rfl⟩
              · exact ⟨next, ((members next).mp member).1, List.mem_cons_of_mem _ listed, before,
                  rfl⟩
            · rintro ⟨next, member, listed, before, rfl⟩
              by_cases same : next = move
              · subst same
                exact Or.inl ⟨before, rfl⟩
              · refine Or.inr ⟨next, (members next).mpr ⟨member, same⟩, ?_, before, rfl⟩
                refine (List.mem_cons.mp listed).resolve_left fun goes => same ?_
                exact begun _ member _ among (goes.trans going)
      | none =>
          have unlisted : ∀ move ∈ moves, move.source ≠ old.target := by
            have length := le_antisymm List.findIdx_le_length (List.getElem?_eq_none_iff.mp found)
            intro move member same
            have := List.findIdx_eq_length.mp length move member
            simp [same] at this
          obtain ⟨follows, sources, remaining, rests, modifies⟩ :=
            ih distinct begun ended
          have stays : ∀ target, goes moves deletions insertions old.target target ↔
              old.target ∉ deletions.toFinset ∧ insertions.shift (deletions.unshift old.target) =
                target := fun target => by
            rw [goes_of_unlisted unlisted, IndexSet.shift_eq, IndexSet.unshift_eq]
          have kept : ∀ move ∈ moves, move.source ∉ (old :: rest).map Move.target ↔
              move.source ∉ rest.map Move.target := fun move member => by
            rw [List.map_cons, List.mem_cons, not_or]
            exact and_iff_right (unlisted move member)
          have rests' : ∀ other, other ∈ (followMoves modifications deletions insertions rest moves
              modified).2.1 ↔ other ∈ moves ∧ other.source ∉ (old :: rest).map Move.target :=
            fun other => by
              rw [rests]
              exact and_congr_right fun member => (kept other member).symm
          have modifies' : ∀ index, index ∈ (followMoves modifications deletions insertions rest
              moves modified).2.2.toFinset ↔ index ∈ modified.toFinset ∨ ∃ move ∈ moves,
                move.source ∈ (old :: rest).map Move.target ∧
                  move.source ∈ modifications.toFinset ∧ move.target = index := fun index => by
            rw [modifies]
            refine or_congr_right (exists_congr fun move => and_congr_right fun member => ?_)
            rw [not_iff_not.mp (kept move member)]
          by_cases dropped : deletions.contains old.target = true
          · simp only [if_pos dropped]
            refine ⟨fun source target => ?_, sources.cons _, remaining, rests', modifies'⟩
            rw [follows]
            constructor
            · rintro ⟨middle, listed, goes⟩
              exact ⟨middle, List.mem_cons_of_mem _ listed, goes⟩
            · rintro ⟨middle, listed, goes⟩
              rcases List.mem_cons.mp listed with same | listed
              · obtain rfl : middle = old.target := congrArg Move.target same
                exact absurd (IndexSet.contains_iff.mp dropped) ((stays target).mp goes).1
              · exact ⟨middle, listed, goes⟩
          · simp only [if_neg dropped]
            have free : old.target ∉ deletions.toFinset := fun member =>
              dropped (IndexSet.contains_iff.mpr member)
            refine ⟨fun source target => ?_, sources.cons_cons _, remaining, rests', modifies'⟩
            rw [List.mem_cons, follows]
            constructor
            · rintro (same | ⟨middle, listed, goes⟩)
              · obtain ⟨rfl, rfl⟩ := Move.mk.inj same
                exact ⟨old.target, List.mem_cons_self, (stays _).mpr ⟨free, rfl⟩⟩
              · exact ⟨middle, List.mem_cons_of_mem _ listed, goes⟩
            · rintro ⟨middle, listed, goes⟩
              rcases List.mem_cons.mp listed with same | listed
              · obtain rfl : middle = old.target := congrArg Move.target same
                obtain rfl : source = old.source := congrArg Move.source same
                exact Or.inl (by rw [((stays target).mp goes).2])
              · exact Or.inr ⟨middle, listed, goes⟩

end FollowMoves

section CleanUp

variable {deletions insertions : IndexSet} {kept moves : List Move} {old new : List α}

/-- An item that is followed is the same one. -/
theorem Leads.getElem?_eq (leads : Leads deletions insertions moves old new) {source target : Nat}
    (follows : (script deletions insertions).Follows (Moved moves) source target) :
    old[source]? = new[target]? := by
  rcases follows with ⟨kept, rfl⟩ | moved
  · exact (leads.describes.getElem?_of_notMem kept).symm
  · exact leads.genuine _ _ moved

/-- Without a move, the others are those that begin elsewhere. -/
theorem moved_append_iff {move : Move} (leads : Leads deletions insertions (kept ++ move :: moves)
    old new) (source target : Nat) :
    Moved (kept ++ moves) source target ↔
      Moved (kept ++ move :: moves) source target ∧ source ≠ move.source := by
  have distinct := leads.distinct
  rw [List.nodup_middle, List.nodup_cons] at distinct
  have here : Moved (kept ++ move :: moves) move.source move.target := by simp [Moved]
  constructor
  · intro moved
    have listed : Moved (kept ++ move :: moves) source target := by
      simp only [Moved, List.mem_append, List.mem_cons] at moved ⊢
      exact moved.imp_right Or.inr
    refine ⟨listed, fun same => distinct.1 ?_⟩
    subst same
    obtain rfl := leads.paired.functional _ _ _ listed here
    exact moved
  · rintro ⟨listed, other⟩
    simp only [Moved, List.mem_append, List.mem_cons] at listed ⊢
    refine listed.imp_right fun later => later.resolve_left fun same => other ?_
    rw [← same]

/-- A stale move is dropped with its deletion and insertion. -/
theorem Leads.remove {move : Move}
    (leads : Leads deletions insertions (kept ++ move :: moves) old new)
    (stale : deletions.unshift move.source = insertions.unshift move.target) :
    Leads (deletions.remove move.source) (insertions.remove move.target) (kept ++ moves) old new ∧
      ∀ source target,
        (script (deletions.remove move.source) (insertions.remove move.target)).Follows
            (Moved (kept ++ moves)) source target ↔
          (script deletions insertions).Follows (Moved (kept ++ move :: moves)) source target := by
  have here : Moved (kept ++ move :: moves) move.source move.target := by simp [Moved]
  have back : Positions.unshift (script deletions insertions).deletions move.source =
      Positions.unshift (script deletions insertions).insertions move.target := by
    rw [IndexSet.unshift_eq, IndexSet.unshift_eq] at stale
    exact stale
  have smaller : script (deletions.remove move.source) (insertions.remove move.target) =
      (script deletions insertions).erase move.source move.target := by
    rw [script, IndexSet.toFinset_remove, IndexSet.toFinset_remove]
    rfl
  have others : Moved (kept ++ moves) =
      fun source target => Moved (kept ++ move :: moves) source target ∧ source ≠ move.source :=
    funext fun _ => funext fun _ => propext (moved_append_iff leads _ _)
  have paired := leads.paired.erase here
  rw [← others, ← smaller] at paired
  refine ⟨⟨?_, paired, ?_, fun source target moved => ?_⟩, fun source target => ?_⟩
  · rw [smaller]
    exact leads.describes.cancel (leads.paired.deleted _ _ here) (leads.paired.inserted _ _ here)
      back (leads.genuine _ _ here)
  · have distinct := leads.distinct
    rw [List.nodup_middle, List.nodup_cons] at distinct
    exact distinct.2
  · exact leads.genuine _ _ ((moved_append_iff leads _ _).mp moved).1
  · rw [smaller, others]
    exact Script.follows_erase leads.paired here back source target

/-- **Dropping stale moves** leaves every item where it is followed to. -/
theorem Leads.cleanUp (leads : Leads deletions insertions (kept ++ moves) old new) :
    let cleaned := CollectionChangeBuilder.cleanUp moves deletions insertions
    Leads cleaned.2.1 cleaned.2.2 (kept ++ cleaned.1) old new ∧
      ∀ source target, (script cleaned.2.1 cleaned.2.2).Follows (Moved (kept ++ cleaned.1))
          source target ↔
        (script deletions insertions).Follows (Moved (kept ++ moves)) source target := by
  induction moves generalizing kept deletions insertions with
  | nil => exact ⟨leads, fun _ _ => Iff.rfl⟩
  | cons move rest ih =>
      rw [CollectionChangeBuilder.cleanUp]
      by_cases moves : move.source - deletions.count 0 move.source ≠
          move.target - insertions.count 0 move.target
      · simp only [if_pos moves]
        have split : ∀ others, kept ++ move :: others = kept ++ [move] ++ others := by simp
        have cleaned := ih (split rest ▸ leads)
        simp only [← split] at cleaned
        exact cleaned
      · simp only [if_neg moves]
        obtain ⟨smaller, same⟩ := leads.remove (not_not.mp moves)
        obtain ⟨cleaned, follows⟩ := ih smaller
        exact ⟨cleaned, fun source target => (follows source target).trans (same source target)⟩

end CleanUp

namespace CollectionChangeBuilder

/-! ## The steps of a merge, without the tests that skip them -/

variable {changes new : CollectionChangeBuilder} {moves : List Move} {modified : IndexSet}

/-- Without new moves, deletions and insertions, old moves stay as they are. -/
theorem followMoves_of_empty {deletions insertions : IndexSet} (none : deletions.empty = true)
    (unshifted : insertions.empty = true) (modifications : IndexSet) (olds : List Move) :
    followMoves modifications deletions insertions olds [] modified = (olds, [], modified) := by
  induction olds with
  | nil => rfl
  | cons old rest ih =>
      have outside : deletions.contains old.target = false := by
        rw [← Bool.not_eq_true, IndexSet.contains_iff, IndexSet.toFinset_of_empty none]
        exact Finset.notMem_empty _
      have stays : insertions.shift (deletions.unshift old.target) = old.target := by
        rw [IndexSet.shift_eq, IndexSet.unshift_eq, IndexSet.toFinset_of_empty none,
          IndexSet.toFinset_of_empty unshifted, Positions.unshift_empty, Positions.shift_empty]
      simp only [followMoves, List.findIdx_nil, List.getElem?_nil, ih, outside,
        Bool.false_eq_true, ↓reduceIte, stays]

/-- Old moves are followed whether or not the source skips the loop. -/
theorem followOld_eq (changes new : CollectionChangeBuilder) :
    changes.followOld new = followMoves changes.modifications new.deletions new.insertions
      changes.moves new.moves new.modifications := by
  rw [followOld]
  by_cases skipped : (new.moves.isEmpty && new.deletions.empty && new.insertions.empty) = true
  · rw [if_pos skipped]
    simp only [Bool.and_eq_true, List.isEmpty_iff] at skipped
    rw [skipped.1.1, followMoves_of_empty skipped.1.2 skipped.2]
  · rw [if_neg skipped]

/-- New moves of rows that were inserted are dropped. -/
theorem dropInserted_eq (insertions : IndexSet) (moves : List Move) :
    dropInserted insertions moves =
      moves.filter fun move => move.source ∉ insertions.toFinset := by
  have same : (moves.filter fun move => !insertions.contains move.source) =
      moves.filter fun move => move.source ∉ insertions.toFinset := by
    refine List.filter_congr fun move _ => ?_
    rw [Bool.eq_iff_iff, Bool.not_eq_true', ← Bool.not_eq_true, IndexSet.contains_iff,
      decide_eq_true_iff]
  rw [dropInserted]
  by_cases skipped : (insertions.empty || moves.isEmpty) = true
  · rw [if_pos skipped]
    rcases Bool.or_eq_true_iff.mp skipped with none | none
    · rw [IndexSet.toFinset_of_empty none]
      simp
    · rw [List.isEmpty_iff.mp none]
      rfl
  · rw [if_neg skipped, same]

/-- New moves begin where their rows were before the earlier changes. -/
theorem startEarlier_eq (deletions insertions : IndexSet) (moves : List Move) :
    startEarlier deletions insertions moves = moves.map fun move =>
      ⟨Positions.shift deletions.toFinset (Positions.unshift insertions.toFinset move.source),
        move.target⟩ := by
  rw [startEarlier]
  by_cases skipped : (deletions.empty && insertions.empty) = true
  · rw [if_pos skipped]
    obtain ⟨none, unshifted⟩ := Bool.and_eq_true_iff.mp skipped
    simp [IndexSet.toFinset_of_empty none, IndexSet.toFinset_of_empty unshifted]
  · rw [if_neg skipped]
    simp only [IndexSet.shift_eq, IndexSet.unshift_eq]

/-- The targets of moves are modified when their sources were. -/
theorem mem_foldl_keepModified {modifications : IndexSet} {index : Nat} :
    index ∈ (moves.foldl (keepModified modifications) modified).toFinset ↔
      index ∈ modified.toFinset ∨ ∃ move ∈ moves,
        move.source ∈ modifications.toFinset ∧ move.target = index := by
  induction moves generalizing modified with
  | nil => simp
  | cons move rest ih =>
      rw [List.foldl_cons, ih, mem_keepModified, List.exists_mem_cons_iff, or_assoc]

/-- The targets of moves are modified when their sources were, whether or not the source skips the
loop. -/
theorem mem_keepAll {modifications : IndexSet} {index : Nat} :
    index ∈ (if modifications.empty || moves.isEmpty then modified
        else moves.foldl (keepModified modifications) modified).toFinset ↔
      index ∈ modified.toFinset ∨ ∃ move ∈ moves,
        move.source ∈ modifications.toFinset ∧ move.target = index := by
  by_cases skipped : (modifications.empty || moves.isEmpty) = true
  · rw [if_pos skipped]
    refine (or_iff_left ?_).symm
    rintro ⟨move, member, before, _⟩
    rcases Bool.or_eq_true_iff.mp skipped with none | none
    · rw [IndexSet.toFinset_of_empty none] at before
      exact Finset.notMem_empty _ before
    · rw [List.isEmpty_iff.mp none] at member
      exact List.not_mem_nil member
  · rw [if_neg skipped, mem_foldl_keepModified]

end CollectionChangeBuilder

section Merge

variable {changes next : CollectionChangeBuilder} {old middle new : List α}
  {changed changed' : α → Prop}

/-- Changes that delete and insert nothing lead to the same collection. -/
theorem Leads.eq_of_empty {deletions insertions : IndexSet} {moves : List Move}
    (leads : Leads deletions insertions moves old new) (none : deletions.empty = true)
    (none' : insertions.empty = true) : old = new := by
  apply List.ext_getElem?
  intro index
  have kept := leads.describes.kept index
  rwa [script, IndexSet.toFinset_of_empty none, IndexSet.toFinset_of_empty none',
    Positions.shift_empty] at kept

/-- Empty changes change nothing. -/
theorem Tracks.of_empty (tracks : Tracks changes old new changed) (empty : changes.empty = true) :
    old = new ∧ ∀ item ∈ new, ¬ changed item := by
  simp only [CollectionChangeBuilder.empty, Bool.and_eq_true] at empty
  obtain ⟨⟨⟨deletions, insertions⟩, modifications⟩, _⟩ := empty
  refine ⟨tracks.toLeads.eq_of_empty deletions insertions, fun item member => ?_⟩
  obtain ⟨index, inside, rfl⟩ := List.getElem_of_mem member
  have stays : changes.Follows index index := by
    refine Or.inl ⟨?_, ?_⟩
    · rw [script, IndexSet.toFinset_of_empty deletions]
      exact Finset.notMem_empty _
    · rw [script, IndexSet.toFinset_of_empty deletions, IndexSet.toFinset_of_empty insertions,
        Positions.unshift_empty, Positions.shift_empty]
  rw [← tracks.modified index index _ stays (List.getElem?_eq_getElem inside),
    IndexSet.toFinset_of_empty modifications]
  exact Finset.notMem_empty _

/-- No changes are those of a collection that stays as it is. -/
theorem tracks_none (items : List α) :
    Tracks CollectionChangeBuilder.none items items fun _ => False where
  describes := ⟨nofun, nofun, fun _ => rfl⟩
  paired := ⟨nofun, nofun, nofun, nofun⟩
  distinct := List.nodup_nil
  genuine := nofun
  within := nofun
  modified _ _ _ _ _ := iff_of_false (Finset.notMem_empty _) not_false

/-- Changes are tracked by what changed among the new items alone. -/
theorem Tracks.congr (tracks : Tracks changes old new changed)
    (same : ∀ item ∈ new, changed item ↔ changed' item) : Tracks changes old new changed' where
  toLeads := tracks.toLeads
  within := tracks.within
  modified source target item follows here :=
    (tracks.modified source target item follows here).trans (same item (List.mem_of_getElem? here))

/-- A move of a list of fitting moves is determined by where it begins. -/
theorem Leads.begun {deletions insertions : IndexSet} {moves : List Move}
    (leads : Leads deletions insertions moves old new) : Begun moves := by
  rintro ⟨source, first⟩ here ⟨_, second⟩ there rfl
  rw [leads.paired.functional _ _ _ here there]

/-- No two moves end at one index. -/
theorem Leads.nodup_targets {deletions insertions : IndexSet} {moves : List Move}
    (leads : Leads deletions insertions moves old new) : (moves.map Move.target).Nodup := by
  refine List.Nodup.map_on ?_ leads.distinct
  rintro ⟨first, target⟩ here ⟨second, _⟩ there rfl
  rw [leads.paired.injective _ _ _ here there]

/-- No two moves begin at one index. -/
theorem Leads.nodup_sources {deletions insertions : IndexSet} {moves : List Move}
    (leads : Leads deletions insertions moves old new) : (moves.map Move.source).Nodup :=
  List.Nodup.map_on leads.begun leads.distinct

/-- The moves that a merge has before it cleans up. -/
def mergedMoves (changes next : CollectionChangeBuilder) : List Move :=
  (changes.followOld next).1 ++ startEarlier changes.deletions changes.insertions
    (dropInserted changes.insertions (changes.followOld next).2.1)

/-- What a merge has deleted and inserted before it cleans up. -/
def mergedScript (changes next : CollectionChangeBuilder) : Script :=
  script (changes.deletions.addShiftedBy changes.insertions next.deletions)
    ((changes.insertions.eraseAll next.deletions).insertAll next.insertions)

/-- The merged deletions and insertions are those of both scripts, one after the other. -/
theorem mergedScript_eq (changes next : CollectionChangeBuilder) :
    mergedScript changes next = (script changes.deletions changes.insertions).append
      (script next.deletions next.insertions) := by
  rw [mergedScript, script, IndexSet.toFinset_addShiftedBy, IndexSet.toFinset_insertAll,
    IndexSet.toFinset_eraseAll]
  rfl

/-- Where the item of an old move goes is where new changes are followed to. -/
theorem goes_iff (leads : Leads next.deletions next.insertions next.moves middle new)
    {place target : Nat} :
    goes next.moves next.deletions next.insertions place target ↔ next.Follows place target := by
  rw [goes, CollectionChangeBuilder.Follows, Script.Follows, or_comm]
  refine or_congr_left ⟨fun stays => stays.2, fun stays => ⟨?_, stays⟩⟩
  rintro move member rfl
  exact stays.1 (leads.paired.deleted _ _ member)

/-- **What becomes of the old moves**: each is followed through the new changes; the new moves
that continue one are taken out, and their targets stay modified. -/
theorem followOld_spec (leads : Leads changes.deletions changes.insertions changes.moves old middle)
    (leads' : Leads next.deletions next.insertions next.moves middle new) :
    (∀ source target, ⟨source, target⟩ ∈ (changes.followOld next).1 ↔
      ∃ place, Moved changes.moves source place ∧ next.Follows place target) ∧
    ((changes.followOld next).1.map Move.source).Sublist (changes.moves.map Move.source) ∧
    (changes.followOld next).2.1.Nodup ∧
    (∀ move, move ∈ (changes.followOld next).2.1 ↔
      move ∈ next.moves ∧ move.source ∉ changes.moves.map Move.target) ∧
    ∀ index, index ∈ (changes.followOld next).2.2.toFinset ↔
      index ∈ next.modifications.toFinset ∨ ∃ move ∈ next.moves,
        move.source ∈ changes.moves.map Move.target ∧
          move.source ∈ changes.modifications.toFinset ∧ move.target = index := by
  rw [followOld_eq]
  have spec := @followMoves_spec changes.modifications next.deletions next.insertions
    next.modifications changes.moves next.moves leads'.distinct leads'.begun leads.nodup_targets
  refine ⟨fun source target => ?_, spec.2⟩
  rw [spec.1]
  exact exists_congr fun place => and_congr_right fun _ => goes_iff leads'

/-- **The merged moves** are those of the two scripts made one after the other. -/
theorem moved_mergedMoves
    (leads : Leads changes.deletions changes.insertions changes.moves old middle)
    (leads' : Leads next.deletions next.insertions next.moves middle new) :
    Moved (mergedMoves changes next) = (script changes.deletions changes.insertions).movesAppend
      (script next.deletions next.insertions) (Moved changes.moves) (Moved next.moves) := by
  obtain ⟨follows, _, _, rests, _⟩ := followOld_spec leads leads'
  funext source target
  rw [Moved, mergedMoves, List.mem_append, follows, startEarlier_eq, dropInserted_eq, eq_iff_iff]
  refine or_congr_right ?_
  simp only [List.mem_map, List.mem_filter, rests, decide_eq_true_eq]
  constructor
  · rintro ⟨⟨place, _⟩, ⟨⟨member, _⟩, free⟩, same⟩
    obtain ⟨rfl, rfl⟩ := Move.mk.inj same
    exact ⟨place, free, member, rfl⟩
  · rintro ⟨place, free, member, rfl⟩
    refine ⟨⟨place, target⟩, ⟨⟨member, ?_⟩, free⟩, rfl⟩
    rintro ⟨⟨first, _⟩, listed, rfl⟩
    exact free (leads.paired.inserted _ _ listed)

/-- No move is merged twice. -/
theorem nodup_mergedMoves
    (leads : Leads changes.deletions changes.insertions changes.moves old middle)
    (leads' : Leads next.deletions next.insertions next.moves middle new) :
    (mergedMoves changes next).Nodup := by
  obtain ⟨follows, sources, remaining, _, _⟩ := followOld_spec leads leads'
  rw [mergedMoves, startEarlier_eq, dropInserted_eq, List.nodup_append]
  refine ⟨(leads.nodup_sources.sublist sources).of_map, ?_, ?_⟩
  · refine List.Nodup.map_on ?_ (remaining.filter _)
    intro first here second there same
    simp only [List.mem_filter, decide_eq_true_eq] at here there
    obtain ⟨source, target⟩ := Move.mk.inj same
    have begins := Positions.unshift_injOn here.2 there.2 (Positions.shift_injective _ source)
    cases first
    cases second
    simp_all
  · rintro ⟨source, target⟩ here ⟨_, _⟩ there same
    obtain ⟨place, moved, _⟩ := (follows _ _).mp here
    obtain ⟨move, _, equal⟩ := List.mem_map.mp there
    rw [← same] at equal
    obtain ⟨rfl, _⟩ := Move.mk.inj equal
    exact Positions.shift_notMem _ _ (leads.paired.deleted _ _ moved)

/-- **What is merged leads** from the first collection to the last one, and follows an item
through both changes. -/
theorem Leads.merged (leads : Leads changes.deletions changes.insertions changes.moves old middle)
    (leads' : Leads next.deletions next.insertions next.moves middle new) :
    Leads (changes.deletions.addShiftedBy changes.insertions next.deletions)
        ((changes.insertions.eraseAll next.deletions).insertAll next.insertions)
        (mergedMoves changes next) old new ∧
      ∀ source target, (mergedScript changes next).Follows (Moved (mergedMoves changes next))
        source target ↔ ∃ place, changes.Follows source place ∧ next.Follows place target := by
  have follows : ∀ source target,
      (mergedScript changes next).Follows (Moved (mergedMoves changes next)) source target ↔
        ∃ place, changes.Follows source place ∧ next.Follows place target := by
    intro source target
    rw [mergedScript_eq, moved_mergedMoves leads leads']
    exact Script.follows_append leads.paired leads'.paired
  have whole : script (changes.deletions.addShiftedBy changes.insertions next.deletions)
      ((changes.insertions.eraseAll next.deletions).insertAll next.insertions) =
        (script changes.deletions changes.insertions).append
          (script next.deletions next.insertions) := mergedScript_eq changes next
  refine ⟨⟨?_, ?_, nodup_mergedMoves leads leads', fun source target moved => ?_⟩, follows⟩
  · rw [whole]
    exact leads.describes.append leads'.describes
  · rw [whole, moved_mergedMoves leads leads']
    exact leads.paired.append leads'.paired
  · obtain ⟨place, begins, continues⟩ := (follows source target).mp (Or.inr moved)
    rw [leads.getElem?_eq begins, leads'.getElem?_eq continues]

/-- What a merge holds for modified. -/
def mergedModifications (changes next : CollectionChangeBuilder) : IndexSet :=
  let moves := dropInserted changes.insertions (changes.followOld next).2.1
  ((changes.modifications.eraseAll next.deletions).shiftForInsertAll next.insertions).addSet
    (if changes.modifications.empty || moves.isEmpty then (changes.followOld next).2.2
      else moves.foldl (keepModified changes.modifications) (changes.followOld next).2.2)

/-- **What is modified after merging**: what stays modified, what is modified anew, and what was
modified before it was moved. -/
theorem mem_mergedModifications
    (leads : Leads changes.deletions changes.insertions changes.moves old middle)
    (leads' : Leads next.deletions next.insertions next.moves middle new) {index : Nat} :
    index ∈ (mergedModifications changes next).toFinset ↔
      (index ∉ next.insertions.toFinset ∧ Positions.shift next.deletions.toFinset
        (Positions.unshift next.insertions.toFinset index) ∈ changes.modifications.toFinset) ∨
      index ∈ next.modifications.toFinset ∨ ∃ place, Moved next.moves place index ∧
        (place ∈ changes.moves.map Move.target ∨ place ∉ changes.insertions.toFinset) ∧
          place ∈ changes.modifications.toFinset := by
  obtain ⟨_, _, _, rests, modifies⟩ := followOld_spec leads leads'
  rw [mergedModifications, IndexSet.toFinset_addSet, Finset.mem_union, mem_keepAll, modifies,
    IndexSet.toFinset_shiftForInsertAll, IndexSet.toFinset_eraseAll,
    Positions.mem_shiftForInsertAt, Positions.mem_eraseAt, dropInserted_eq, or_assoc]
  refine or_congr_right (or_congr_right ?_)
  simp only [List.mem_filter, rests, decide_eq_true_eq]
  constructor
  · rintro (⟨⟨place, _⟩, member, listed, before, rfl⟩ |
      ⟨⟨place, _⟩, ⟨⟨member, _⟩, free⟩, before, rfl⟩)
    · exact ⟨place, member, Or.inl listed, before⟩
    · exact ⟨place, member, Or.inr free, before⟩
  · rintro ⟨place, member, listed, before⟩
    by_cases followed : place ∈ changes.moves.map Move.target
    · exact Or.inl ⟨⟨place, index⟩, member, followed, before, rfl⟩
    · exact Or.inr ⟨⟨place, index⟩, ⟨⟨member, followed⟩, listed.resolve_left followed⟩, before, rfl⟩

/-- **An item that is followed is modified** in the merge if it was before or after. -/
theorem mem_mergedModifications_of_follows
    (leads : Leads changes.deletions changes.insertions changes.moves old middle)
    (leads' : Leads next.deletions next.insertions next.moves middle new)
    {source place target : Nat}
    (begins : changes.Follows source place) (continues : next.Follows place target) :
    target ∈ (mergedModifications changes next).toFinset ↔
      place ∈ changes.modifications.toFinset ∨ target ∈ next.modifications.toFinset := by
  rw [mem_mergedModifications leads leads']
  rcases continues with ⟨kept, stays⟩ | moved
  · have kept : place ∉ next.deletions.toFinset := kept
    obtain rfl : Positions.shift next.insertions.toFinset
      (Positions.unshift next.deletions.toFinset place) = target := stays
    have free := Positions.shift_notMem next.insertions.toFinset
      (Positions.unshift next.deletions.toFinset place)
    have unmoved : ∀ other, ¬ Moved next.moves other (Positions.shift next.insertions.toFinset
        (Positions.unshift next.deletions.toFinset place)) := fun other moved =>
      free (leads'.paired.inserted _ _ moved)
    have back : Positions.shift next.deletions.toFinset (Positions.unshift next.insertions.toFinset
        (Positions.shift next.insertions.toFinset
          (Positions.unshift next.deletions.toFinset place))) = place := by
      rw [Positions.unshift_shift, Positions.shift_unshift kept]
    simp only [free, not_false_eq_true, back, true_and, unmoved, false_and, exists_false, or_false]
  · have inserted : target ∈ next.insertions.toFinset := leads'.paired.inserted _ _ moved
    have listed : place ∈ changes.moves.map Move.target ∨ place ∉ changes.insertions.toFinset := by
      by_cases member : place ∈ changes.insertions.toFinset
      · exact Or.inl (List.mem_map_of_mem (Script.Follows.moved_of_inserted begins member))
      · exact Or.inr member
    simp only [inserted, not_true_eq_false, false_and, false_or]
    rw [or_comm]
    refine or_congr_left ?_
    constructor
    · rintro ⟨other, moved', _, before⟩
      rwa [leads'.paired.injective _ _ _ moved moved']
    · exact fun before => ⟨place, moved, listed, before⟩

/-- What is modified is in the new collection. -/
theorem lt_of_mem_mergedModifications (tracks : Tracks changes old middle changed)
    (tracks' : Tracks next middle new changed') {index : Nat}
    (member : index ∈ (mergedModifications changes next).toFinset) : index < new.length := by
  rw [mem_mergedModifications tracks.toLeads tracks'.toLeads] at member
  rcases member with ⟨free, before⟩ | modified | ⟨place, moved, _⟩
  · have inside := (tracks'.describes.kept_lt _).mp (tracks.within _ before)
    change Positions.shift next.insertions.toFinset
      (Positions.unshift next.insertions.toFinset index) < _ at inside
    rwa [Positions.shift_unshift free] at inside
  · exact tracks'.within index modified
  · exact tracks'.describes.inserted index (tracks'.paired.inserted _ _ moved)

/-- What a merge is, when there is something to merge on both sides. -/
theorem merge_eq (some : changes.empty = false) (some' : next.empty = false) :
    let merged := CollectionChangeBuilder.cleanUp (mergedMoves changes next)
      (changes.deletions.addShiftedBy changes.insertions next.deletions)
      ((changes.insertions.eraseAll next.deletions).insertAll next.insertions)
    (changes.merge next).moves = merged.1 ∧ (changes.merge next).deletions = merged.2.1 ∧
      (changes.merge next).insertions = merged.2.2 ∧
      (changes.merge next).modifications = mergedModifications changes next := by
  rw [merge, some, some', if_neg Bool.false_ne_true, if_neg Bool.false_ne_true]
  exact ⟨rfl, rfl, rfl, rfl⟩

/-- **Merging** makes two changes one after the other. The merged changes lead from the
first collection to the last one, and an item that can be followed through both is followed
through them, and modified if it changed in either. -/
theorem Tracks.merge (tracks : Tracks changes old middle changed)
    (tracks' : Tracks next middle new changed') :
    Tracks (changes.merge next) old new fun item => changed item ∨ changed' item := by
  cases some' : next.empty with
  | true =>
      obtain ⟨rfl, unchanged⟩ := tracks'.of_empty some'
      rw [CollectionChangeBuilder.merge, if_pos some']
      exact tracks.congr fun item member => (or_iff_left (unchanged item member)).symm
  | false =>
      cases some : changes.empty with
      | true =>
          obtain ⟨rfl, unchanged⟩ := tracks.of_empty some
          rw [CollectionChangeBuilder.merge, some', if_neg Bool.false_ne_true, if_pos some]
          refine ⟨tracks'.toLeads, tracks'.within, fun source target item follows here => ?_⟩
          have there : old[source]? = Option.some item :=
            (tracks'.toLeads.getElem?_eq follows).trans here
          rw [tracks'.modified source target item follows here]
          exact (or_iff_right (unchanged item (List.mem_of_getElem? there))).symm
      | false =>
          obtain ⟨moves, deletions, insertions, modifications⟩ := merge_eq some some'
          obtain ⟨leads, through⟩ := tracks.toLeads.merged tracks'.toLeads
          obtain ⟨cleaned, same⟩ := @Leads.cleanUp _ _ _ [] (mergedMoves changes next) _ _ leads
          rw [List.nil_append] at cleaned same
          refine ⟨by rwa [moves, deletions, insertions], fun index member => ?_,
            fun source target item follows here => ?_⟩
          · rw [modifications] at member
            exact lt_of_mem_mergedModifications tracks tracks' member
          · rw [CollectionChangeBuilder.Follows, moves, deletions, insertions, same] at follows
            obtain ⟨place, begins, continues⟩ := (through source target).mp follows
            have there := (tracks'.toLeads.getElem?_eq continues).trans here
            rw [modifications, mem_mergedModifications_of_follows tracks.toLeads tracks'.toLeads
              begins continues, tracks.modified _ _ _ begins there,
              tracks'.modified _ _ _ continues here]

end Merge

/-! ## What is delivered -/

/-- Changes as they are delivered: also what was modified, in the old collection. -/
structure CollectionChangeSet where
  deletions : IndexSet
  insertions : IndexSet
  modifications : IndexSet
  modificationsNew : IndexSet
  moves : List Move

namespace CollectionChangeSet

def empty (changes : CollectionChangeSet) : Bool :=
  changes.deletions.empty && changes.insertions.empty && changes.modifications.empty &&
    changes.modificationsNew.empty && changes.moves.isEmpty

/-- The indices that a notification passes to its observer. -/
def edits (changes : CollectionChangeSet) : Edits where
  deletions := changes.deletions.asIndexes
  insertions := changes.insertions.asIndexes
  modifications := changes.modifications.asIndexes

end CollectionChangeSet

/-- Changes are made ready for delivery: what is modified is found in the old collection,
and what is inserted is not modified. -/
def CollectionChangeBuilder.finalize (changes : CollectionChangeBuilder) : CollectionChangeSet where
  deletions := changes.deletions
  insertions := changes.insertions
  modifications :=
    (changes.modifications.eraseAll changes.insertions).shiftForInsertAll changes.deletions
  modificationsNew := changes.modifications.removeSet changes.insertions
  moves := changes.moves

section Finalize

variable {changes : CollectionChangeBuilder} {old new : List α} {changed : α → Prop}

/-- What is modified in the old collection is what is kept of it and modified in the new. -/
theorem mem_finalize_modifications {index : Nat} :
    index ∈ changes.finalize.modifications.toFinset ↔ index ∉ changes.deletions.toFinset ∧
      Positions.shift changes.insertions.toFinset
        (Positions.unshift changes.deletions.toFinset index) ∈ changes.modifications.toFinset := by
  rw [CollectionChangeBuilder.finalize, IndexSet.toFinset_shiftForInsertAll,
    IndexSet.toFinset_eraseAll, Positions.mem_shiftForInsertAt, Positions.mem_eraseAt]

/-- There is nothing to deliver only when nothing has changed. -/
theorem empty_of_finalize (empty : changes.finalize.empty = true) : changes.empty = true := by
  simp only [CollectionChangeSet.empty, CollectionChangeBuilder.finalize, Bool.and_eq_true] at empty
  obtain ⟨⟨⟨⟨deletions, insertions⟩, _⟩, modifications⟩, moves⟩ := empty
  have unmodified : changes.modifications = IndexSet.clear := by
    apply IndexSet.ext_toFinset
    have removed := IndexSet.toFinset_of_empty modifications
    rwa [IndexSet.toFinset_removeSet, IndexSet.toFinset_of_empty insertions,
      Finset.sdiff_empty] at removed
  rw [CollectionChangeBuilder.empty, deletions, insertions, moves, unmodified]
  rfl

/-- **The modifications delivered** are the items that are kept and changed. -/
theorem Tracks.mem_finalize_modifications (tracks : Tracks changes old new changed) {index : Nat} :
    index ∈ changes.finalize.modifications.toFinset ↔
      index ∉ changes.deletions.toFinset ∧ ∃ item, old[index]? = some item ∧ changed item := by
  rw [Realm.mem_finalize_modifications]
  refine and_congr_right fun kept => ?_
  have follows : changes.Follows index _ := Script.Follows.of_notMem kept
  have same := tracks.toLeads.getElem?_eq follows
  constructor
  · intro modified
    have inside := tracks.within _ modified
    refine ⟨_, same.trans (List.getElem?_eq_getElem inside), ?_⟩
    exact (tracks.modified _ _ _ follows (List.getElem?_eq_getElem inside)).mp modified
  · rintro ⟨item, here, after⟩
    exact (tracks.modified _ _ _ follows (same ▸ here)).mpr after

/-- **What is delivered describes the change** from the old collection to the new one. -/
theorem Tracks.describes_finalize (tracks : Tracks changes old new changed) :
    changes.finalize.edits.Describes old new := by
  apply Script.Describes.edits
  · exact tracks.describes
  · exact changes.deletions.nodup_asIndexes
  · exact changes.insertions.nodup_asIndexes
  · intro index modified
    have modified : index ∈ changes.finalize.modifications.toFinset :=
      List.mem_toFinset.mpr modified
    obtain ⟨kept, item, here, _⟩ := tracks.mem_finalize_modifications.mp modified
    refine ⟨(List.getElem?_eq_some_iff.mp here).1, fun listed => kept ?_⟩
    exact List.mem_toFinset.mpr listed

/-- What is delivered as modified is kept, and changed. -/
theorem Tracks.mem_edits_modifications (tracks : Tracks changes old new changed) {index : Nat} :
    index ∈ changes.finalize.edits.modifications ↔ index ∉ changes.finalize.edits.deletions ∧
      ∃ item, old[index]? = some item ∧ changed item := by
  have listed := @Tracks.mem_finalize_modifications _ _ _ _ _ tracks index
  rwa [IndexSet.toFinset, IndexSet.toFinset, List.mem_toFinset, List.mem_toFinset] at listed

/-- **As many items are modified in the old collection as in the new one.** -/
theorem card_finalize_modifications (changes : CollectionChangeBuilder) :
    changes.finalize.modifications.toFinset.card =
      changes.finalize.modificationsNew.toFinset.card := by
  have image : changes.finalize.modificationsNew.toFinset =
      changes.finalize.modifications.toFinset.image fun index =>
        Positions.shift changes.insertions.toFinset
          (Positions.unshift changes.deletions.toFinset index) := by
    ext index
    rw [CollectionChangeBuilder.finalize, IndexSet.toFinset_removeSet, Finset.mem_sdiff,
      Finset.mem_image]
    constructor
    · rintro ⟨modified, free⟩
      refine ⟨Positions.shift changes.deletions.toFinset
        (Positions.unshift changes.insertions.toFinset index), ?_, ?_⟩
      · rw [← CollectionChangeBuilder.finalize, Realm.mem_finalize_modifications,
          Positions.unshift_shift, Positions.shift_unshift free]
        exact ⟨Positions.shift_notMem _ _, modified⟩
      · rw [Positions.unshift_shift, Positions.shift_unshift free]
    · rintro ⟨place, modified, rfl⟩
      exact ⟨(Realm.mem_finalize_modifications.mp modified).2, Positions.shift_notMem _ _⟩
  rw [image, Finset.card_image_of_injOn]
  intro first here second there same
  exact Positions.unshift_injOn (Realm.mem_finalize_modifications.mp here).1
    (Realm.mem_finalize_modifications.mp there).1 (Positions.shift_injective _ same)

end Finalize

end EventTalks.Realm

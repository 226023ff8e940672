import EventTalks.Model.Talk
import EventTalks.Foundation.SlotTable

/-! # Adding and deleting objects inside a write transaction

Objects that a transaction adds become accessors of rows, found or created by
primary key (`EventTalks.Realm.create`). Objects that it deletes leave by moving
the last row over theirs, which redirects the accessors of the moved row
(`EventTalks.Realm.WriteTransaction.delete`). Two managed objects are equal when
their accessors are attached to the same row (`EventTalks.Realm.objectBaseAreEqual`).

Filtering the live results by a closure is lazy: the closure runs while the
deletion loop asks for its next element, against the accessors as they are at
that moment (`EventTalks.Realm.WriteTransaction.deleteMissing`).
-/

namespace EventTalks.Realm

open Foundation

variable {α : Type*}

/-- Write one property under the policy `.modified`: only a differing value is
written. -/
def setIfModified [DecidableEq α] (old new : α) : α := if old ≠ new then new else old

@[simp] theorem setIfModified_eq [DecidableEq α] (old new : α) : setIfModified old new = new := by
  unfold setIfModified
  split
  · rfl
  · rename_i same
    exact not_ne_iff.mp same

/-- Overwrite a row with an object's properties, the primary key excepted. A
property that is nil on the object is set to null in the row. -/
def updateModified (row object : Talk) : Talk where
  identifier := row.identifier
  name := setIfModified row.name object.name
  notes := setIfModified row.notes object.notes
  dueDate := setIfModified row.dueDate object.dueDate
  speakerName := setIfModified row.speakerName object.speakerName
  dateCreated := setIfModified row.dateCreated object.dateCreated
  dateModified := setIfModified row.dateModified object.dateModified

theorem updateModified_eq {row object : Talk} (same : row.identifier = object.identifier) :
    updateModified row object = object := by
  simp only [updateModified, setIfModified_eq, same]

/-- Find the row with the object's primary key and update it, or add a row; also
the position of that row. -/
def create (rows : List Talk) (object : Talk) : List Talk × Nat :=
  match position? Talk.identifier rows object.identifier with
  | some position => (rows.modify position (updateModified · object), position)
  | none => (rows ++ [object], rows.length)

/-- **Creating is upserting**, and the position returned is that of the row with
the object's key. -/
theorem create_fst (rows : List Talk) (object : Talk) :
    (create rows object).1 = upsertRows Talk.identifier rows object := by
  unfold create upsertRows
  cases found : position? Talk.identifier rows object.identifier with
  | none => rfl
  | some position =>
      obtain ⟨inside, same⟩ := position?_eq_some found
      simp only [List.modify_eq_set_getElem?, List.getElem?_eq_getElem inside, Option.map_eq_map,
        Option.map_some, Option.getD_some, updateModified_eq same]

theorem create_snd (rows : List Talk) (object : Talk) :
    ((create rows object).1.map Talk.identifier)[(create rows object).2]? =
      some object.identifier := by
  rw [create_fst, map_key_upsertRows]
  unfold create
  cases found : position? Talk.identifier rows object.identifier with
  | none =>
      have absent := position?_eq_none.mp found
      simp only [absent, ↓reduceIte]
      rw [List.getElem?_append_right (by simp)]
      simp
  | some position =>
      obtain ⟨inside, same⟩ := position?_eq_some found
      have present : object.identifier ∈ rows.map Talk.identifier :=
        List.mem_map.mpr ⟨_, List.getElem_mem inside, same⟩
      simp [present, inside, same]

/-- Add objects one after the other: the rows that result and, for each object,
the position of its row at the time it was added. -/
def addAll (rows : List Talk) : List Talk → List Talk × List Nat
  | [] => (rows, [])
  | object :: objects =>
      let created := create rows object
      let added := addAll created.1 objects
      (added.1, created.2 :: added.2)

theorem addAll_fst (store : TalkStore) (objects : List Talk) :
    (addAll store.rows objects).1 = (objects.foldl KeyedTable.upsert store).rows := by
  induction objects generalizing store with
  | nil => rfl
  | cons object objects ih =>
      have created : (create store.rows object).1 = (store.upsert object).rows :=
        create_fst store.rows object
      rw [addAll, List.foldl_cons, created]
      exact ih (store.upsert object)

/-- Adding objects never moves a row that is already there. -/
theorem addAll_keys_prefix (rows objects : List Talk) :
    rows.map Talk.identifier <+: (addAll rows objects).1.map Talk.identifier := by
  induction objects generalizing rows with
  | nil => exact List.prefix_refl _
  | cons object objects ih =>
      refine List.IsPrefix.trans ?_ (ih (create rows object).1)
      rw [create_fst, map_key_upsertRows]
      split
      · exact List.prefix_refl _
      · exact List.prefix_append _ _

/-- Once all objects are added, each one's position holds its primary key. -/
theorem addAll_snd (rows objects : List Talk) :
    (addAll rows objects).2.map
        (fun position => ((addAll rows objects).1.map Talk.identifier)[position]?) =
      objects.map fun object => some object.identifier := by
  induction objects generalizing rows with
  | nil => rfl
  | cons object objects ih =>
      have located := create_snd rows object
      obtain ⟨suffix, extended⟩ := addAll_keys_prefix (create rows object).1 objects
      rw [addAll, List.map_cons, List.map_cons, ih (create rows object).1, ← extended,
        List.getElem?_append_left (List.getElem?_eq_some_iff.mp located).1, located]

/-- An object as the library sees it: whether a realm manages it, and the row its
accessor is attached to. -/
structure ObjectBase where
  managed : Bool
  row : RowRef
deriving DecidableEq

/-- Equality of objects with a primary key. Two variables holding one object are
equal; otherwise both must be managed, by one realm, and attached to one row. -/
def objectBaseAreEqual (identical : Bool) (first second : ObjectBase) : Bool :=
  if identical then true
  else if first.managed = false ∨ first.managed ≠ second.managed then false
  else match first.row, second.row with
    | some row, some other => row = other
    | _, _ => false

/-- What a write transaction works on: the rows, the objects of the array that is
being written and the live view that an enumeration has pinned down. -/
structure WriteTransaction where
  rows : List Talk
  talksToUpdate : List ObjectBase
  snapshot : List RowRef

namespace WriteTransaction

/-- `realm.add(talksToUpdate, update: .modified)`: the objects become accessors. -/
def add (rows : List Talk) (talksToUpdate : List Talk) : WriteTransaction :=
  let added := addAll rows talksToUpdate
  { rows := added.1
    talksToUpdate := added.2.map fun position => ⟨true, some position⟩
    snapshot := [] }

/-- Begin enumerating all rows; inside a transaction the enumeration works on a
snapshot of references. -/
def enumerate (transaction : WriteTransaction) : WriteTransaction :=
  { transaction with snapshot := (List.range transaction.rows.length).map some }

/-- `talksToUpdate.contains(talk)`. The enumeration hands out new accessor
objects, so no element is identical to the one looked for. -/
def contains (transaction : WriteTransaction) (talk : ObjectBase) : Bool :=
  transaction.talksToUpdate.any fun object => objectBaseAreEqual false object talk

/-- `realm.delete(talk)`: move the last row over the talk's row. -/
def delete (transaction : WriteTransaction) (talk : ObjectBase) : WriteTransaction :=
  match talk.row with
  | none => transaction
  | some row =>
      let follow := RowRef.follow transaction.rows.length row
      { rows := moveLastOver transaction.rows row
        talksToUpdate := transaction.talksToUpdate.map fun object =>
          { object with row := follow object.row }
        snapshot := transaction.snapshot.map follow }

/-- One turn of the deletion loop: the enumeration hands out its next element,
the closure decides about it, and it is deleted unless the closure rejects it.
The accessors an enumeration has already fetched follow their rows as the
snapshot's references do, so fetching them in batches changes nothing. -/
def deleteNext (transaction : WriteTransaction) (index : Nat) : WriteTransaction :=
  match transaction.snapshot[index]? with
  | none => transaction
  | some row =>
      let talk : ObjectBase := ⟨true, row⟩
      if !transaction.contains talk then transaction.delete talk else transaction

/-- `realm.delete(talksToDelete)`, where `talksToDelete` is all talks filtered
lazily by not being contained in `talksToUpdate`. -/
def deleteMissing (transaction : WriteTransaction) : WriteTransaction :=
  let transaction := transaction.enumerate
  (List.range transaction.snapshot.length).foldl deleteNext transaction

/-- Every object of the array being written has become an accessor. -/
def Promoted (transaction : WriteTransaction) : Prop :=
  ∀ object ∈ transaction.talksToUpdate, object.managed = true

/-- The sweep a transaction performs: the array being written pins its rows, the
enumeration is the cursor. -/
def toSweep (transaction : WriteTransaction) : Sweep Talk where
  rows := transaction.rows
  pinned := transaction.talksToUpdate.map ObjectBase.row
  cursor := transaction.snapshot

theorem Promoted.contains_iff {transaction : WriteTransaction} (promoted : transaction.Promoted)
    (row : RowRef) :
    transaction.contains ⟨true, row⟩ = true ↔ row.isSome ∧ row ∈ transaction.toSweep.pinned := by
  simp only [contains, List.any_eq_true, toSweep, List.mem_map]
  constructor
  · intro contained
    rcases contained with ⟨object, member, equal⟩
    have managed := promoted object member
    cases attached : object.row with
    | none => simp [objectBaseAreEqual, attached] at equal
    | some position =>
        cases row with
        | none => simp [objectBaseAreEqual, attached] at equal
        | some other =>
            have same : position = other := by
              simpa [objectBaseAreEqual, managed, attached] using equal
            exact ⟨rfl, object, member, by rw [attached, same]⟩
  · intro pinned
    rcases pinned with ⟨attached, object, member, rfl⟩
    obtain ⟨position, located⟩ := Option.isSome_iff_exists.mp attached
    exact ⟨object, member, by simp [objectBaseAreEqual, promoted object member, located]⟩

theorem Promoted.deleteNext {transaction : WriteTransaction} (promoted : transaction.Promoted)
    (index : Nat) :
    (transaction.deleteNext index).Promoted ∧
      (transaction.deleteNext index).toSweep = transaction.toSweep.visit index := by
  unfold WriteTransaction.deleteNext Sweep.visit
  cases entry : transaction.snapshot[index]? with
  | none => simp only [toSweep, entry]; exact ⟨promoted, trivial⟩
  | some ref =>
      have listed : transaction.toSweep.cursor[index]? = some ref := entry
      rw [listed]
      cases ref with
      | none =>
          have absent : transaction.contains ⟨true, none⟩ = false := by
            rw [Bool.eq_false_iff]
            intro present
            exact absurd ((promoted.contains_iff none).mp present).1 (by simp)
          simp only [absent, Bool.not_false, ↓reduceIte, delete]
          exact ⟨promoted, trivial⟩
      | some row =>
          by_cases pinned : some row ∈ transaction.toSweep.pinned
          · have present := (promoted.contains_iff (some row)).mpr ⟨rfl, pinned⟩
            simp only [present, pinned, Bool.not_true, Bool.false_eq_true, ↓reduceIte]
            exact ⟨promoted, trivial⟩
          · have absent : transaction.contains ⟨true, some row⟩ = false := by
              rw [Bool.eq_false_iff]
              exact fun present => pinned ((promoted.contains_iff (some row)).mp present).2
            simp only [absent, pinned, Bool.not_false, ↓reduceIte, delete]
            refine ⟨fun object member => ?_, ?_⟩
            · obtain ⟨source, inside, rfl⟩ := List.mem_map.mp member
              exact promoted source inside
            · simp [toSweep, Sweep.remove, Function.comp_def]

/-- **The deletion loop is a sweep**: it performs the removals of the sweep whose
pinned references are the accessors of the objects just added. -/
theorem Promoted.deleteMissing_toSweep {transaction : WriteTransaction}
    (promoted : transaction.Promoted) :
    transaction.deleteMissing.toSweep = transaction.enumerate.toSweep.run := by
  have turns : ∀ (indices : List Nat) (current : WriteTransaction), current.Promoted →
      (indices.foldl WriteTransaction.deleteNext current).toSweep =
        indices.foldl Sweep.visit current.toSweep := by
    intro indices
    induction indices with
    | nil => intro current _; rfl
    | cons index indices ih =>
        intro current managed
        rw [List.foldl_cons, List.foldl_cons, ← (managed.deleteNext index).2]
        exact ih _ (managed.deleteNext index).1
  exact turns _ transaction.enumerate promoted

end WriteTransaction

end EventTalks.Realm

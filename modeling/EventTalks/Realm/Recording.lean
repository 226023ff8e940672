import EventTalks.Realm.TransactLog
import EventTalks.Realm.WriteTransaction

/-! # What a write transaction records

While objects are added and deleted in a write transaction, the instructions that change the
table are recorded in its log. An object whose primary key is found records the properties
that differ, a new one records its row and then its properties
(`EventTalks.Realm.createLog`), and a deleted one records that its row is moved over
(`EventTalks.Realm.WriteTransaction.deleteLog`). When the log is performed on the table with
which the transaction began, it leads to the rows that the transaction has reached, and the
rows that stay keep their primary keys (`EventTalks.Realm.Records`).
-/

namespace EventTalks.Realm

open Foundation

/-- The properties of a talk other than the primary key, in the order of the schema. -/
inductive Property where
  | name
  | notes
  | dueDate
  | speakerName
  | dateCreated
  | dateModified
deriving DecidableEq

namespace Property

def all : List Property := [.name, .notes, .dueDate, .speakerName, .dateCreated, .dateModified]

/-- A row with a property set to that of an object. -/
def assign (object row : Talk) : Property → Talk
  | .name => { row with name := object.name }
  | .notes => { row with notes := object.notes }
  | .dueDate => { row with dueDate := object.dueDate }
  | .speakerName => { row with speakerName := object.speakerName }
  | .dateCreated => { row with dateCreated := object.dateCreated }
  | .dateModified => { row with dateModified := object.dateModified }

/-- No property is the primary key. -/
@[simp] theorem identifier_assign (object row : Talk) (property : Property) :
    (property.assign object row).identifier = row.identifier := by
  cases property <;> rfl

/-- A property assigned from the row itself changes nothing. -/
@[simp] theorem assign_self (row : Talk) (property : Property) : property.assign row row = row := by
  cases property <;> rfl

/-- A row whose properties have all been set is the object, when it has its primary key. -/
theorem foldl_assign_all {object row : Talk} (same : row.identifier = object.identifier) :
    all.foldl (fun row property => property.assign object row) row = object := by
  obtain ⟨identifier, name, notes, dueDate, speakerName, dateCreated, dateModified⟩ := object
  subst same
  rfl

end Property

section Source

variable (updateOnlyDiff : Bool) (empty : Talk)

/-- Properties of a row are set to those of an object. When only differences are updated, a
value that the row has already is not written. -/
def setProperties (position : Nat) (object : Talk) :
    Talk → List Property → List (Instruction Talk)
  | _, [] => []
  | row, property :: properties =>
      let assigned := property.assign object row
      if updateOnlyDiff ∧ assigned = row then setProperties position object row properties
      else .set position assigned :: setProperties position object assigned properties

/-- A new row, once its primary key has been set. -/
def newRow (object : Talk) : Talk := { empty with identifier := object.identifier }

/-- What is recorded when an object is created. The primary key of a new row is set as the key
of a row that was not there. -/
def createLog (rows : List Talk) (object : Talk) : List (Instruction Talk) :=
  match position? Talk.identifier rows object.identifier with
  | some position =>
      match rows[position]? with
      | some row => setProperties updateOnlyDiff position object row Property.all
      | none => []
  | none =>
      let row := newRow empty object
      .insertEmptyRows rows.length 1 Nat.one_pos :: .setDefault rows.length row ::
        setProperties updateOnlyDiff rows.length object row Property.all

/-- What is recorded when objects are added under the policy `.modified`. -/
def addAllLog (rows : List Talk) : List Talk → List (Instruction Talk)
  | [] => []
  | object :: objects =>
      createLog true empty rows object ++ addAllLog (create rows object).1 objects

end Source

namespace WriteTransaction

/-- What is recorded when an object is deleted. -/
def deleteLog (transaction : WriteTransaction) (talk : ObjectBase) : List (Instruction Talk) :=
  match talk.row with
  | none => []
  | some row => [.eraseRows row transaction.rows.length]

/-- What is recorded in one turn of the deletion loop. -/
def deleteNextLog (transaction : WriteTransaction) (index : Nat) : List (Instruction Talk) :=
  match transaction.snapshot[index]? with
  | none => []
  | some row =>
      let talk : ObjectBase := ⟨true, row⟩
      if !transaction.contains talk then transaction.deleteLog talk else []

/-- What is recorded in turns of the deletion loop. -/
def deleteEachLog (transaction : WriteTransaction) : List Nat → List (Instruction Talk)
  | [] => []
  | index :: indices =>
      transaction.deleteNextLog index ++ (transaction.deleteNext index).deleteEachLog indices

/-- What is recorded by the deletion loop. -/
def deleteMissingLog (transaction : WriteTransaction) : List (Instruction Talk) :=
  let transaction := transaction.enumerate
  transaction.deleteEachLog (List.range transaction.snapshot.length)

end WriteTransaction

/-! ## Primary keys -/

/-- Every row of a table that was also in an earlier one has its primary key from there. -/
structure Known (base table : Table Talk) : Prop where
  older : base.next ≤ table.next
  same : ∀ row ∈ table.rows, row.id < base.next →
    ∃ old ∈ base.rows, old.id = row.id ∧ old.value.identifier = row.value.identifier

section Known

variable {base table after : Table Talk}

/-- A table is known from itself. -/
theorem known_refl (table : Table Talk) : Known table table :=
  ⟨Nat.le_refl _, fun row member _ => ⟨row, member, rfl, rfl⟩⟩

/-- What is known of a table is known of those after it. -/
theorem Known.trans (first : Known base table) (second : Known table after) : Known base after where
  older := first.older.trans second.older
  same row member before := by
    obtain ⟨middle, among, id, key⟩ := second.same row member (before.trans_le first.older)
    obtain ⟨old, there, id', key'⟩ := first.same middle among (id ▸ before)
    exact ⟨old, there, id'.trans id, key'.trans key⟩

/-- New rows are not known, and have ids of their own. -/
theorem Known.insertEmptyRows (known : Known base table) (empty : Talk) (count : Nat) :
    Known base (table.insertEmptyRows empty count) where
  older := known.older.trans (Nat.le_add_right _ _)
  same row member before := by
    rcases List.mem_append.mp member with kept | new
    · exact known.same row kept before
    · obtain ⟨id, among, rfl⟩ := List.mem_map.mp new
      have fresh := (List.mem_range'_1.mp among).1
      exact absurd (known.older.trans fresh) (Nat.not_le_of_lt before)

/-- A row of a table with a value set is the one that was set, or was there. -/
theorem mem_set {position : Nat} {row other : Row Talk} {value : Talk}
    (here : table.rows[position]? = some row) (member : other ∈ (table.set position value).rows) :
    other = { row with value } ∨ other ∈ table.rows := by
  obtain ⟨index, found⟩ := List.mem_iff_getElem?.mp member
  rw [Table.set, List.getElem?_modify] at found
  by_cases same : position = index
  · subst same
    simp only [here, if_pos, Option.map_eq_map, Option.map_some, Option.some.injEq] at found
    exact Or.inl found.symm
  · simp only [if_neg same, Option.map_eq_map, Option.map_id'] at found
    exact Or.inr (List.mem_of_getElem? found)

/-- A value is set that has the primary key of the row. -/
theorem Known.set {position : Nat} {row : Row Talk} {value : Talk} (known : Known base table)
    (here : table.rows[position]? = some row)
    (key : row.id < base.next → row.value.identifier = value.identifier) :
    Known base (table.set position value) where
  older := known.older
  same other member before := by
    rcases mem_set here member with rfl | kept
    · obtain ⟨old, among, id, same⟩ := known.same row (List.mem_of_getElem? here) before
      exact ⟨old, among, id, same.trans (key before)⟩
    · exact known.same other kept before

/-- The rows that stay are known. -/
theorem Known.eraseRows {row : Nat} (known : Known base table)
    (inside : row < table.rows.length) : Known base (table.eraseRows row inside) where
  older := known.older
  same other member before :=
    known.same other (List.mem_of_mem_eraseIdx ((moveLastOver_perm _ _ inside).mem_iff.mp member))
      before

end Known

/-! ## Performing what was recorded -/

namespace Table

def values (table : Table Talk) : List Talk := table.rows.map Row.value

/-- The value at a position is that of the row there. -/
theorem getElem?_values (table : Table Talk) (position : Nat) :
    table.values[position]? = table.rows[position]?.map Row.value := List.getElem?_map ..

/-- A table has as many values as rows. -/
@[simp] theorem length_values (table : Table Talk) : table.values.length = table.rows.length :=
  List.length_map ..

/-- A new row comes last. -/
theorem values_insertEmptyRows (table : Table Talk) (empty : Talk) :
    (table.insertEmptyRows empty 1).values = table.values ++ [empty] := by
  rw [values, insertEmptyRows, List.map_append]
  rfl

/-- A value is set at its position. -/
theorem values_set (table : Table Talk) (position : Nat) (value : Talk) :
    (table.set position value).values = table.values.set position value := by
  apply List.ext_getElem?
  intro index
  rw [getElem?_values, set, List.getElem?_modify, List.getElem?_set', getElem?_values]
  cases table.rows[index]? with
  | none => by_cases here : position = index <;> simp [here]
  | some row => by_cases here : position = index <;> simp [here]

/-- The last value is moved over the one that is erased. -/
theorem values_eraseRows (table : Table Talk) {row : Nat} (inside : row < table.rows.length) :
    (table.eraseRows row inside).values = moveLastOver table.values row :=
  (moveLastOver_map ..).symm

end Table

/-- What was recorded leads from the table with which a transaction began to these rows, and
the rows that stay have kept their primary keys. -/
def Records (empty : Talk) (base : Table Talk) (log : List (Instruction Talk))
    (rows : List Talk) : Prop :=
  ∃ table, base.commit empty log = some table ∧ table.values = rows ∧ Known base table

section Records

variable {empty : Talk} {base : Table Talk} {log : List (Instruction Talk)} {rows : List Talk}

/-- An empty log records nothing. -/
theorem records_nil (empty : Talk) (base : Table Talk) : Records empty base [] base.values :=
  ⟨base, rfl, rfl, known_refl base⟩

/-- To perform a log is to perform its first instruction, and then the others. -/
theorem perform_cons {first : Nat} {table middle after : Table Talk}
    {instruction : Instruction Talk} {rest : List (Instruction Talk)}
    (performs : Performs empty first table instruction middle)
    (performed : middle.perform empty first rest = some after) :
    table.perform empty first (instruction :: rest) = some after := by
  rw [Table.perform, perform_eq_some_iff.mpr performs, Option.bind_some, performed]

/-- More is recorded. -/
theorem Records.append {rest : List (Instruction Talk)} {rows' : List Talk}
    (records : Records empty base log rows)
    (next : ∀ table : Table Talk, table.values = rows → Known base table →
      ∃ after, table.perform empty base.next rest = some after ∧ after.values = rows' ∧
        Known base after) :
    Records empty base (log ++ rest) rows' := by
  obtain ⟨table, performed, values, known⟩ := records
  obtain ⟨after, performed', values', known'⟩ := next table values known
  refine ⟨after, ?_, values', known'⟩
  rw [Table.commit] at performed ⊢
  rw [Table.perform_append, performed, Option.bind_some, performed']

/-- A value that keeps the primary key is recorded as set. -/
theorem Records.set {position : Nat} {row value : Talk} (records : Records empty base log rows)
    (here : rows[position]? = some row) (key : row.identifier = value.identifier) :
    Records empty base (log ++ [.set position value]) (rows.set position value) := by
  apply records.append
  intro table values known
  subst values
  rw [Table.getElem?_values, Option.map_eq_some_iff] at here
  obtain ⟨before, here, rfl⟩ := here
  exact ⟨_, perform_cons (.set here value) rfl, table.values_set position value,
    known.set here fun _ => key⟩

/-- A row is added, and its primary key is set. -/
theorem Records.add (records : Records empty base log rows) (value : Talk) :
    Records empty base
      (log ++ [.insertEmptyRows rows.length 1 Nat.one_pos, .setDefault rows.length value])
      (rows ++ [value]) := by
  apply records.append
  intro table values known
  subst values
  rw [Table.length_values]
  have here : (table.insertEmptyRows empty 1).rows[table.rows.length]? =
      some ⟨table.next, empty⟩ := by
    rw [Table.insertEmptyRows, List.getElem?_append_right (Nat.le_refl _), Nat.sub_self]
    rfl
  refine ⟨(table.insertEmptyRows empty 1).set table.rows.length value, ?_, ?_, ?_⟩
  · apply perform_cons (.insertEmptyRows Nat.one_pos)
    exact perform_cons (.setDefault here known.older value) rfl
  · rw [Table.values_set, Table.values_insertEmptyRows, ← Table.length_values,
      List.set_append_right _ _ (Nat.le_refl _), Nat.sub_self]
    rfl
  · apply (known.insertEmptyRows empty 1).set here
    intro before
    exact absurd known.older (Nat.not_le_of_lt before)

/-- An erased row is recorded, with the number of rows before it. -/
theorem Records.eraseRows {row : Nat} (records : Records empty base log rows)
    (inside : row < rows.length) :
    Records empty base (log ++ [.eraseRows row rows.length]) (moveLastOver rows row) := by
  apply records.append
  intro table values known
  subst values
  rw [Table.length_values] at inside ⊢
  exact ⟨_, perform_cons (.eraseRows inside) rfl, table.values_eraseRows inside,
    known.eraseRows inside⟩

/-- The properties of a row are set. -/
theorem Records.setProperties {position : Nat} {row object : Talk} {properties : List Property}
    (updateOnlyDiff : Bool) (records : Records empty base log rows)
    (here : rows[position]? = some row) :
    Records empty base
      (log ++ Realm.setProperties updateOnlyDiff position object row properties)
      (rows.set position
        (properties.foldl (fun row property => property.assign object row) row)) := by
  induction properties generalizing log rows row with
  | nil =>
      obtain ⟨inside, rfl⟩ := List.getElem?_eq_some_iff.mp here
      rw [Realm.setProperties, List.append_nil, List.foldl_nil, List.set_getElem_self]
      exact records
  | cons property properties ih =>
      rw [Realm.setProperties, List.foldl_cons]
      by_cases unchanged : updateOnlyDiff = true ∧ property.assign object row = row
      · rw [if_pos unchanged, unchanged.2]
        exact ih records here
      · rw [if_neg unchanged, List.append_cons]
        have inside := (List.getElem?_eq_some_iff.mp here).1
        have set := records.set here (property.identifier_assign object row).symm
        have next := ih set (List.getElem?_set_self inside)
        rwa [List.set_set] at next

/-- **Creating an object** records what it does. -/
theorem Records.create (updateOnlyDiff : Bool) (records : Records empty base log rows)
    (object : Talk) :
    Records empty base (log ++ createLog updateOnlyDiff empty rows object)
      (create rows object).1 := by
  rw [create_fst, createLog, upsertRows]
  cases found : position? Talk.identifier rows object.identifier with
  | some position =>
      obtain ⟨inside, same⟩ := position?_eq_some found
      have here := List.getElem?_eq_getElem inside
      have set := @Records.setProperties _ _ _ _ _ _ object Property.all updateOnlyDiff records here
      simp only [here]
      rwa [Property.foldl_assign_all same] at set
  | none =>
      have key : (newRow empty object).identifier = object.identifier := rfl
      have added := records.add (newRow empty object)
      have here : (rows ++ [newRow empty object])[rows.length]? = some (newRow empty object) :=
        List.getElem?_concat_length ..
      have set := @Records.setProperties _ _ _ _ _ _ object Property.all updateOnlyDiff added here
      rw [Property.foldl_assign_all key, List.set_append_right _ _ (Nat.le_refl _), Nat.sub_self,
        List.append_assoc] at set
      exact set

/-- Objects are recorded one after the other. -/
theorem Records.addAll (records : Records empty base log rows) (objects : List Talk) :
    Records empty base (log ++ addAllLog empty rows objects) (addAll rows objects).1 := by
  induction objects generalizing log rows with
  | nil =>
      rw [addAllLog, List.append_nil]
      exact records
  | cons object objects ih =>
      rw [addAllLog, ← List.append_assoc]
      exact ih (records.create true object)

end Records

/-! ## Deleting -/

namespace WriteTransaction

/-- The references of an enumeration are to rows of the table. -/
def Attached (transaction : WriteTransaction) : Prop :=
  ∀ row, some row ∈ transaction.snapshot → row < transaction.rows.length

/-- The objects that are enumerated belong to rows. -/
theorem attached_enumerate (transaction : WriteTransaction) : transaction.enumerate.Attached := by
  intro row member
  obtain ⟨index, among, same⟩ := List.mem_map.mp member
  obtain rfl := Option.some.inj same
  exact List.mem_range.mp among

/-- A row less is left. -/
theorem length_moveLastOver {α : Type*} {rows : List α} {position : Nat}
    (inside : position < rows.length) :
    (moveLastOver rows position).length = rows.length - 1 :=
  (moveLastOver_perm rows position inside).length_eq.trans (List.length_eraseIdx_of_lt inside)

/-- The objects that are left belong to rows after a deletion, which moves the last one. -/
theorem Attached.delete {transaction : WriteTransaction} {row : Nat}
    (attached : transaction.Attached) (inside : row < transaction.rows.length) :
    (transaction.delete ⟨true, some row⟩).Attached := by
  intro place member
  obtain ⟨ref, among, follows⟩ := List.mem_map.mp member
  rw [WriteTransaction.delete, length_moveLastOver inside]
  cases ref with
  | none => cases follows
  | some other =>
      have before := attached other among
      rw [RowRef.follow] at follows
      by_cases removed : other = row
      · rw [if_pos removed] at follows
        cases follows
      · rw [if_neg removed] at follows
        by_cases last : other + 1 = transaction.rows.length
        · rw [if_pos last] at follows
          obtain rfl := Option.some.inj follows
          omega
        · rw [if_neg last] at follows
          obtain rfl := Option.some.inj follows
          omega

variable {empty : Talk} {base : Table Talk} {log : List (Instruction Talk)}
  {transaction : WriteTransaction}

/-- **Each turn of the deletion loop** records what it does. -/
theorem deleteNext_records (records : Records empty base log transaction.rows)
    (attached : transaction.Attached) (index : Nat) :
    Records empty base (log ++ transaction.deleteNextLog index)
      (transaction.deleteNext index).rows ∧ (transaction.deleteNext index).Attached := by
  rw [deleteNextLog, deleteNext]
  cases listed : transaction.snapshot[index]? with
  | none =>
      rw [List.append_nil]
      exact ⟨records, attached⟩
  | some ref =>
      dsimp only
      by_cases kept : transaction.contains ⟨true, ref⟩ = true
      · simp only [kept, Bool.not_true, Bool.false_eq_true, if_false, List.append_nil]
        exact ⟨records, attached⟩
      · simp only [kept, Bool.not_false, if_true]
        cases ref with
        | none =>
            rw [deleteLog, List.append_nil]
            exact ⟨records, attached⟩
        | some row =>
            have inside := attached row (List.mem_of_getElem? listed)
            exact ⟨records.eraseRows inside, attached.delete inside⟩

/-- Deletions are recorded one after the other; the induction is on the indices that are left. -/
theorem deleteEach_records (records : Records empty base log transaction.rows)
    (attached : transaction.Attached) (indices : List Nat) :
    Records empty base (log ++ transaction.deleteEachLog indices)
      (indices.foldl deleteNext transaction).rows := by
  induction indices generalizing log transaction with
  | nil =>
      rw [deleteEachLog, List.append_nil]
      exact records
  | cons index indices ih =>
      obtain ⟨next, attached'⟩ := deleteNext_records records attached index
      rw [deleteEachLog, ← List.append_assoc]
      exact ih next attached'

/-- **The deletion loop** records what it does. -/
theorem deleteMissing_records (records : Records empty base log transaction.rows) :
    Records empty base (log ++ transaction.deleteMissingLog) transaction.deleteMissing.rows :=
  @deleteEach_records _ _ _ transaction.enumerate records transaction.attached_enumerate _

end WriteTransaction

/-! ## Recording nothing -/

section Nothing

variable {empty : Talk} {rows objects : List Talk} {object row : Talk} {position : Nat}

/-- An object that is as its row is has nothing to set. -/
theorem setProperties_self (position : Nat) (properties : List Property) :
    setProperties true position object object properties = [] := by
  induction properties with
  | nil => rfl
  | cons property properties ih =>
      rw [setProperties, Property.assign_self, if_pos ⟨rfl, rfl⟩, ih]

/-- Where nothing is set, the properties are those of the row already. -/
theorem foldl_assign_of_eq_nil {properties : List Property}
    (nothing : setProperties true position object row properties = []) :
    properties.foldl (fun row property => property.assign object row) row = row := by
  induction properties with
  | nil => rfl
  | cons property properties ih =>
      rw [setProperties] at nothing
      by_cases unchanged : property.assign object row = row
      · rw [if_pos ⟨rfl, unchanged⟩] at nothing
        rw [List.foldl_cons, unchanged]
        exact ih nothing
      · rw [if_neg fun both => unchanged both.2] at nothing
        cases nothing

/-- A row of a table with the primary key of another one is found where it is. -/
theorem position?_of_mem (unique : (rows.map Talk.identifier).Nodup) (member : object ∈ rows) :
    ∃ position, position? Talk.identifier rows object.identifier = some position ∧
      rows[position]? = some object := by
  cases found : position? Talk.identifier rows object.identifier with
  | none => exact absurd (List.mem_map_of_mem member) (position?_eq_none.mp found)
  | some position =>
      obtain ⟨inside, same⟩ := position?_eq_some found
      refine ⟨position, rfl, ?_⟩
      rw [List.getElem?_eq_getElem inside,
        List.inj_on_of_nodup_map unique (List.getElem_mem inside) member same]

/-- Nothing is recorded for an object that the rows have already, and for no other. -/
theorem createLog_eq_nil_iff (unique : (rows.map Talk.identifier).Nodup) :
    createLog true empty rows object = [] ↔ object ∈ rows := by
  constructor
  · intro nothing
    rw [createLog] at nothing
    cases found : position? Talk.identifier rows object.identifier with
    | none =>
        rw [found] at nothing
        cases nothing
    | some position =>
        obtain ⟨inside, same⟩ := position?_eq_some found
        simp only [found, List.getElem?_eq_getElem inside] at nothing
        rw [← Property.foldl_assign_all same, foldl_assign_of_eq_nil nothing]
        exact List.getElem_mem inside
  · intro member
    obtain ⟨position, found, here⟩ := position?_of_mem unique member
    simp only [createLog, found, here]
    exact setProperties_self position Property.all

/-- An object that is there changes nothing. -/
theorem create_of_mem (unique : (rows.map Talk.identifier).Nodup) (member : object ∈ rows) :
    (create rows object).1 = rows := by
  obtain ⟨position, found, here⟩ := position?_of_mem unique member
  obtain ⟨inside, same⟩ := List.getElem?_eq_some_iff.mp here
  rw [create_fst, upsertRows, found, ← same]
  exact List.set_getElem_self inside

/-- Objects record nothing exactly when all of them are there. -/
theorem addAllLog_eq_nil_iff (unique : (rows.map Talk.identifier).Nodup) :
    addAllLog empty rows objects = [] ↔ ∀ object ∈ objects, object ∈ rows := by
  induction objects with
  | nil => exact iff_of_true rfl nofun
  | cons object objects ih =>
      rw [addAllLog, List.append_eq_nil_iff, createLog_eq_nil_iff unique, List.forall_mem_cons]
      refine and_congr_right fun member => ?_
      rw [create_of_mem unique member]
      exact ih

/-- Objects that are there change nothing. -/
theorem addAll_of_mem (unique : (rows.map Talk.identifier).Nodup)
    (members : ∀ object ∈ objects, object ∈ rows) : (addAll rows objects).1 = rows := by
  induction objects with
  | nil => rfl
  | cons object objects ih =>
      obtain ⟨member, members⟩ := List.forall_mem_cons.mp members
      rw [addAll, create_of_mem unique member]
      exact ih members

namespace WriteTransaction

variable {transaction : WriteTransaction}

/-- Where nothing is recorded, nothing is deleted. -/
theorem deleteNext_of_eq_nil {index : Nat} (nothing : transaction.deleteNextLog index = []) :
    transaction.deleteNext index = transaction := by
  rw [deleteNextLog] at nothing
  rw [deleteNext]
  cases listed : transaction.snapshot[index]? with
  | none => rfl
  | some ref =>
      by_cases kept : transaction.contains ⟨true, ref⟩ = true
      · simp [kept]
      · cases ref with
        | none => simp [kept, delete]
        | some row => simp [listed, kept, deleteLog] at nothing

/-- Deletions record nothing exactly when none of them does. -/
theorem deleteEachLog_eq_nil_iff (indices : List Nat) :
    transaction.deleteEachLog indices = [] ↔
      ∀ index ∈ indices, transaction.deleteNextLog index = [] := by
  induction indices with
  | nil => exact iff_of_true rfl nofun
  | cons index indices ih =>
      rw [deleteEachLog, List.append_eq_nil_iff, List.forall_mem_cons]
      refine and_congr_right fun nothing => ?_
      rw [deleteNext_of_eq_nil nothing]
      exact ih

/-- An object that has been added is managed. -/
theorem promoted_add (rows objects : List Talk) : (add rows objects).Promoted := by
  intro object member
  obtain ⟨position, _, rfl⟩ := List.mem_map.mp member
  rfl

/-- The rows of the objects that have been added, and references to them. -/
theorem mem_pinnedRows_iff {row : Nat} (distinct : transaction.rows.Nodup)
    (inside : row < transaction.rows.length) :
    some transaction.rows[row] ∈ transaction.toSweep.pinnedRows ↔
      some row ∈ transaction.toSweep.pinned := by
  constructor
  · intro pinned
    obtain ⟨ref, among, reads⟩ := List.mem_map.mp pinned
    rwa [RowRef.eq_of_deref_eq distinct reads (List.getElem?_eq_getElem inside)] at among
  · intro pinned
    exact List.mem_map.mpr ⟨some row, pinned, List.getElem?_eq_getElem inside⟩

/-- The deletion loop records nothing exactly when every row is one of an object that has been
added. -/
theorem Promoted.deleteMissingLog_eq_nil_iff (promoted : transaction.Promoted) :
    transaction.deleteMissingLog = [] ↔
      ∀ row < transaction.rows.length, some row ∈ transaction.toSweep.pinned := by
  rw [deleteMissingLog, deleteEachLog_eq_nil_iff]
  have length : transaction.enumerate.snapshot.length = transaction.rows.length := by
    rw [enumerate, List.length_map, List.length_range]
  rw [length]
  refine forall_congr' fun row => ?_
  rw [List.mem_range]
  refine forall_congr' fun inside => ?_
  have listed : transaction.enumerate.snapshot[row]? = some (some row) := by
    rw [enumerate, List.getElem?_map, List.getElem?_range inside]
    rfl
  have contained : transaction.enumerate.contains ⟨true, some row⟩ = true ↔
      some row ∈ transaction.toSweep.pinned :=
    (@Promoted.contains_iff transaction.enumerate promoted (some row)).trans (and_iff_right rfl)
  rw [← contained, deleteNextLog, listed]
  by_cases kept : transaction.enumerate.contains ⟨true, some row⟩ = true
  · simp [kept]
  · simp [kept, deleteLog]

end WriteTransaction

end Nothing

end EventTalks.Realm

import EventTalks.Realm.Recording
import EventTalks.Services.FetchAll

/-! # The writes of the app

The app writes in transactions of their own: the talks of a response, a talk that a response
brings or that has only a name, a property that is edited, and the deletion of a talk. What a
write does to the store is what performing its log does to the table
(`EventTalks.Write.records`). A fetch records nothing when the store is as the response has it
(`EventTalks.TalksFetcher.fetchAllLog_eq_nil_iff`).
-/

namespace EventTalks

open Foundation Realm

namespace TalksFetcher

/-- What the success branch of `fetchAll` records. -/
def fetchAllLog (empty : Talk) (initials : Nat → Talk.Initial) (rows : List Talk)
    (talks : List Network.Response.Talk) : List (Instruction Talk) :=
  let objects := talksToUpdate initials talks
  addAllLog empty rows objects ++ (WriteTransaction.add rows objects).deleteMissingLog

end TalksFetcher

/-- A write transaction of the app. -/
inductive Write where
  | fetchAll (initials : Nat → Talk.Initial) (talks : List Network.Response.Talk)
  | add (talk : Talk)
  | addNamed (initial : Talk.Initial) (name : String)
  | set (identifier : String) (property : Property) (value : Talk)
  | delete (talk : Talk)

namespace Write

/-- The store after a write, unless it raises an exception: a talk that has only a name is not
added when its primary key is found, and a talk that is not found has no properties. -/
def perform (store : TalkStore) : Write → Option TalkStore
  | .fetchAll initials talks => some (TalksFetcher.fetchAllSuccess initials store talks)
  | .add talk => some (store.upsert talk)
  | .addNamed initial name => Talk.add initial name store
  | .set identifier property value =>
      (store.get? identifier).map fun talk => store.upsert (property.assign value talk)
  | .delete talk => some (talk.delete store)

/-- What a write records. -/
def log (empty : Talk) (rows : List Talk) : Write → Option (List (Instruction Talk))
  | .fetchAll initials talks => some (TalksFetcher.fetchAllLog empty initials rows talks)
  | .add talk => some (createLog true empty rows talk)
  | .addNamed initial name =>
      let talk := Talk.named initial name
      match position? Talk.identifier rows talk.identifier with
      | some _ => none
      | none => some (createLog false empty rows talk)
  | .set identifier property value => do
      let position ← position? Talk.identifier rows identifier
      let row ← rows[position]?
      return [.set position (property.assign value row)]
  | .delete talk =>
      match position? Talk.identifier rows talk.identifier with
      | some position => some [.eraseRows position rows.length]
      | none => some []

variable {empty : Talk} {table : Table Talk} {store after : TalkStore}

/-- **What a write records** leads from a table that holds the store before to one that holds
the store after, and rows that stay keep their primary keys. -/
theorem records {write : Write} (holds : table.values = store.rows)
    (performed : write.perform store = some after) :
    ∃ log, write.log empty store.rows = some log ∧ Records empty table log after.rows := by
  have start := holds ▸ records_nil empty table
  cases write with
  | fetchAll initials talks =>
      obtain rfl := Option.some.inj performed
      refine ⟨_, rfl, ?_⟩
      have added : Records empty table (addAllLog empty store.rows _)
        (WriteTransaction.add store.rows (TalksFetcher.talksToUpdate initials talks)).rows :=
        start.addAll (TalksFetcher.talksToUpdate initials talks)
      exact WriteTransaction.deleteMissing_records added
  | add talk =>
      obtain rfl := Option.some.inj performed
      refine ⟨_, rfl, ?_⟩
      have created := start.create true talk
      rwa [create_fst] at created
  | addNamed initial name =>
      obtain ⟨absent, same⟩ := Option.ite_none_left_eq_some.mp performed
      obtain rfl := Option.some.inj same
      have missing := position?_eq_none.mpr absent
      refine ⟨createLog false empty store.rows (Talk.named initial name), ?_, ?_⟩
      · simp only [log, missing]
      · have created := start.create false (Talk.named initial name)
        rwa [create_fst] at created
  | set identifier property value =>
      obtain ⟨talk, stored, rfl⟩ := Option.map_eq_some_iff.mp performed
      have key : talk.identifier = identifier := (KeyedTable.get?_eq_some.mp stored).2
      rw [KeyedTable.get?, List.find?_eq_bind_findIdx?_getElem?, Option.bind_eq_some_iff] at stored
      obtain ⟨position, found, here⟩ := stored
      have located : position? Talk.identifier store.rows (property.assign value talk).identifier =
          some position := by
        rw [Property.identifier_assign, key]
        exact found
      refine ⟨[.set position (property.assign value talk)], ?_, ?_⟩
      · rw [log, position?, found, Option.bind_eq_bind, Option.bind_some, here]
        rfl
      · have rows : (store.upsert (property.assign value talk)).rows =
            upsertRows Talk.identifier store.rows (property.assign value talk) := rfl
        rw [rows, upsertRows, located]
        exact start.set here (property.identifier_assign value talk).symm
  | delete talk =>
      obtain rfl := Option.some.inj performed
      have rows : (talk.delete store).rows = store.removedRows talk.identifier := rfl
      rw [log, rows, KeyedTable.removedRows]
      cases found : position? Talk.identifier store.rows talk.identifier with
      | none => exact ⟨[], rfl, start⟩
      | some position =>
          obtain ⟨inside, _⟩ := position?_eq_some found
          exact ⟨_, rfl, start.eraseRows inside⟩

/-- A write that raises an exception has no log. -/
theorem log_eq_none {write : Write} (empty : Talk) (raises : write.perform store = none) :
    write.log empty store.rows = none := by
  cases write with
  | fetchAll | add | delete => cases raises
  | addNamed initial name =>
      have present : (Talk.named initial name).identifier ∈ store.keys := by
        by_contra absent
        rw [perform, Talk.add, if_neg absent] at raises
        cases raises
      rw [log]
      cases found : position? Talk.identifier store.rows (Talk.named initial name).identifier with
      | none => exact absurd present (position?_eq_none.mp found)
      | some position => simp only
  | set identifier property value =>
      have absent := KeyedTable.get?_eq_none.mp (Option.map_eq_none_iff.mp raises)
      rw [log, position?_eq_none.mpr absent]
      rfl

/-- **The log of a write refines the store**: a write has a log unless it raises an exception,
and on every table that holds the store before it, the log can be committed, leads to the rows
of the store after, in their order, and keeps the primary keys of the rows that stay. -/
theorem log_performs (write : Write) (empty : Talk) (store : TalkStore) (table : Table Talk)
    (holds : table.values = store.rows) :
    match write.perform store with
    | none => write.log empty store.rows = none
    | some after => ∃ log reached, write.log empty store.rows = some log ∧
        table.commit empty log = some reached ∧ reached.values = after.rows ∧
        ∀ row ∈ reached.rows, row.id < table.next →
          ∃ old ∈ table.rows, old.id = row.id ∧ old.value.identifier = row.value.identifier := by
  cases performed : write.perform store with
  | none => exact log_eq_none empty performed
  | some after =>
      obtain ⟨log, recorded, reached, committed, values, known⟩ := records holds performed
      exact ⟨log, reached, recorded, committed, values, known.same⟩

/-- The first of two talks is deleted, and the second one is moved over it. -/
theorem log_performs_deleted :
    let talk (identifier : String) : Talk := { Talk.new default with identifier }
    let table : Table Talk := ⟨[⟨0, talk "a"⟩, ⟨1, talk "b"⟩], 2, by decide, by decide⟩
    ∃ log reached, (Write.delete (talk "a")).log (talk "") [talk "a", talk "b"] = some log ∧
      table.commit (talk "") log = some reached ∧ reached.values = [talk "b"] := by
  intro talk table
  let store : TalkStore := ⟨[talk "a", talk "b"], by decide⟩
  obtain ⟨log, reached, recorded, committed, values, _⟩ :=
    log_performs (.delete (talk "a")) (talk "") store table rfl
  exact ⟨log, reached, recorded, committed, values⟩

end Write

/-! ## A fetch that changes nothing -/

namespace TalksFetcher

/-- **A fetch records nothing** exactly when the store is as the response has it: it has every
talk of the response, and no talk whose identifier the response has not. -/
theorem fetchAllLog_eq_nil_iff (empty : Talk) (initials : Nat → Talk.Initial) (store : TalkStore)
    (talks : List Network.Response.Talk) :
    fetchAllLog empty initials store.rows talks = [] ↔
      (∀ object ∈ talksToUpdate initials talks, object ∈ store.rows) ∧
        ∀ row ∈ store.rows,
          row.identifier ∈ (talksToUpdate initials talks).map Talk.identifier := by
  let objects := talksToUpdate initials talks
  let transaction := WriteTransaction.add store.rows objects
  have promoted : transaction.Promoted := WriteTransaction.promoted_add store.rows objects
  rw [fetchAllLog, List.append_eq_nil_iff, addAllLog_eq_nil_iff store.unique,
    promoted.deleteMissingLog_eq_nil_iff]
  refine and_congr_right fun members => ?_
  have rows : transaction.rows = store.rows := addAll_of_mem store.unique members
  have distinct : transaction.rows.Nodup := rows ▸ store.unique.of_map
  have pinned : ∀ row, (inside : row < transaction.rows.length) →
      (some row ∈ transaction.toSweep.pinned ↔
        transaction.rows[row].identifier ∈ objects.map Talk.identifier) := by
    intro row inside
    rw [← WriteTransaction.mem_pinnedRows_iff distinct inside]
    apply mem_pinnedRows_add store objects
    rw [← addAll_fst]
    exact List.getElem_mem inside
  rw [← rows]
  constructor
  · intro every row member
    obtain ⟨index, inside, rfl⟩ := List.getElem_of_mem member
    exact (pinned index inside).mp (every index inside)
  · intro every index inside
    exact (pinned index inside).mpr (every _ (List.getElem_mem inside))

end TalksFetcher

end EventTalks

import EventTalks.Realm.TableChanges

/-! # Reading a transaction log

A transaction is known by its log: rows are appended, rows are removed by moving the last
one over them, and values are set. While the log is read, each instruction is recorded in
the changes of its table (`EventTalks.Realm.Instruction.observe`). When it has been read,
the changes find every row of the table before in the table after, and tell the rows whose
value was set (`EventTalks.Realm.Reading.finds_rows`).
-/

namespace EventTalks.Realm

open Foundation

variable {β : Type*}

/-- A row of a table: its value, and what it is known by while it is in the table. -/
structure Row (β : Type*) where
  id : Nat
  value : β

/-- A table. What a row was known by is not used again for another row. -/
structure Table (β : Type*) where
  rows : List (Row β)
  next : Nat
  below : ∀ row ∈ rows, row.id < next
  distinct : (rows.map Row.id).Nodup

namespace Table

def ids (table : Table β) : List Nat := table.rows.map Row.id

/-- The ids of a table are below the next one. -/
theorem below_of_mem_ids (table : Table β) {id : Nat} (member : id ∈ table.ids) :
    id < table.next := by
  obtain ⟨row, among, rfl⟩ := List.mem_map.mp member
  exact table.below row among

/-- The id at an index is that of the row there. -/
theorem getElem?_ids (table : Table β) (index : Nat) :
    table.ids[index]? = table.rows[index]?.map Row.id := List.getElem?_map ..

/-- A table has as many ids as rows. -/
@[simp] theorem length_ids (table : Table β) : table.ids.length = table.rows.length :=
  List.length_map ..

/-- The ids of new rows are new. -/
theorem ids_append_nodup (table : Table β) (count : Nat) :
    (table.ids ++ List.range' table.next count).Nodup := by
  refine List.nodup_append.mpr ⟨table.distinct, List.nodup_range', ?_⟩
  intro old member new fresh same
  have := table.below_of_mem_ids member
  have := (List.mem_range'_1.mp fresh).1
  omega

/-- New rows have the ids that they are given. -/
theorem map_id_empty (empty : β) (ids : List Nat) :
    (ids.map fun id => (⟨id, empty⟩ : Row β)).map Row.id = ids := by
  rw [List.map_map]
  exact List.map_id _

/-- Empty rows are appended. -/
def insertEmptyRows (table : Table β) (empty : β) (count : Nat) : Table β where
  rows := table.rows ++ (List.range' table.next count).map fun id => ⟨id, empty⟩
  next := table.next + count
  below row member := by
    rcases List.mem_append.mp member with old | new
    · exact Nat.lt_add_right _ (table.below row old)
    · obtain ⟨id, among, rfl⟩ := List.mem_map.mp new
      exact (List.mem_range'_1.mp among).2
  distinct := by
    rw [List.map_append, map_id_empty]
    exact table.ids_append_nodup count

/-- The ids of new rows come last. -/
theorem ids_insertEmptyRows (table : Table β) (empty : β) (count : Nat) :
    (table.insertEmptyRows empty count).ids = table.ids ++ List.range' table.next count := by
  rw [ids, insertEmptyRows, List.map_append, map_id_empty, ids]

/-- Setting a value leaves the ids as they are. -/
theorem map_modify_value (rows : List (Row β)) (row : Nat) (value : β) :
    (rows.modify row fun before => { before with value }).map Row.id = rows.map Row.id := by
  apply List.ext_getElem?
  intro index
  rw [List.getElem?_map, List.getElem?_map, List.getElem?_modify]
  cases rows[index]? with
  | none => rfl
  | some before => by_cases here : row = index <;> simp [here]

/-- A value is set. -/
def set (table : Table β) (row : Nat) (value : β) : Table β where
  rows := table.rows.modify row fun before => { before with value }
  next := table.next
  below other member := by
    have listed : other.id ∈ _ := List.mem_map_of_mem member
    rw [map_modify_value] at listed
    exact table.below_of_mem_ids listed
  distinct := by
    rw [map_modify_value]
    exact table.distinct

/-- Setting a value leaves the ids of a table as they are. -/
theorem ids_set (table : Table β) (row : Nat) (value : β) : (table.set row value).ids = table.ids :=
  map_modify_value ..

/-- The last row is moved over another one. -/
def eraseRows (table : Table β) (row : Nat) (inside : row < table.rows.length) : Table β where
  rows := moveLastOver table.rows row
  next := table.next
  below other member :=
    table.below other (List.mem_of_mem_eraseIdx ((moveLastOver_perm _ _ inside).mem_iff.mp member))
  distinct := by
    refine ((moveLastOver_perm _ _ inside).map Row.id).nodup_iff.mpr ?_
    exact table.distinct.sublist ((List.eraseIdx_sublist ..).map _)

/-- The last id is moved over the one that is erased. -/
theorem ids_eraseRows (table : Table β) (row : Nat) (inside : row < table.rows.length) :
    (table.eraseRows row inside).ids = moveLastOver table.ids row :=
  (moveLastOver_map ..).symm

end Table

/-- The instructions for a table in a transaction log. -/
inductive Instruction (β : Type*) where
  | insertEmptyRows (row count : Nat) (positive : 0 < count)
  | set (row : Nat) (value : β)
  | setDefault (row : Nat) (value : β)
  | eraseRows (row prior : Nat)

namespace Instruction

/-- What an instruction does to a table. Rows are only appended, and only rows known by a
number from a first one on are given default values. -/
def perform (empty : β) (first : Nat) (table : Table β) : Instruction β → Option (Table β)
  | .insertEmptyRows row count _ =>
      if row = table.rows.length then some (table.insertEmptyRows empty count) else none
  | .set row value => if row < table.rows.length then some (table.set row value) else none
  | .setDefault row value =>
      match table.rows[row]? with
      | some before => if first ≤ before.id then some (table.set row value) else none
      | none => none
  | .eraseRows row prior =>
      if inside : row < table.rows.length then
        if prior = table.rows.length then some (table.eraseRows row inside) else none
      else none

/-- How an instruction is recorded in the changes of its table. Default values are not, as
they are not given to rows that were there. -/
def observe (changes : CollectionChangeBuilder) : Instruction β → CollectionChangeBuilder
  | .insertEmptyRows row count positive => changes.insert row count positive
  | .set row _ => changes.modify row
  | .setDefault _ _ => changes
  | .eraseRows row prior => changes.moveOver row (prior - 1)

/-- The rows whose value an instruction sets. -/
def sets (table : Table β) : Instruction β → List Nat
  | .set row _ => (table.ids[row]?).toList
  | _ => []

end Instruction

/-- What an instruction can do to a table. -/
inductive Performs (empty : β) (first : Nat) (table : Table β) : Instruction β → Table β → Prop
  | insertEmptyRows {count : Nat} (positive : 0 < count) :
      Performs empty first table (.insertEmptyRows table.rows.length count positive)
        (table.insertEmptyRows empty count)
  | set {row : Nat} {before : Row β} (here : table.rows[row]? = some before) (value : β) :
      Performs empty first table (.set row value) (table.set row value)
  | setDefault {row : Nat} {before : Row β} (here : table.rows[row]? = some before)
      (inserted : first ≤ before.id) (value : β) :
      Performs empty first table (.setDefault row value) (table.set row value)
  | eraseRows {row : Nat} (inside : row < table.rows.length) :
      Performs empty first table (.eraseRows row table.rows.length) (table.eraseRows row inside)

/-- An instruction can be performed exactly when it is one of these. -/
theorem perform_eq_some_iff {empty : β} {first : Nat} {table after : Table β}
    {instruction : Instruction β} : instruction.perform empty first table = some after ↔
      Performs empty first table instruction after := by
  constructor
  · intro performed
    cases instruction with
    | insertEmptyRows row count positive =>
        obtain ⟨rfl, same⟩ := Option.ite_none_right_eq_some.mp performed
        exact Option.some.inj same ▸ .insertEmptyRows positive
    | set row value =>
        obtain ⟨inside, same⟩ := Option.ite_none_right_eq_some.mp performed
        exact Option.some.inj same ▸ .set (List.getElem?_eq_getElem inside) value
    | setDefault row value =>
        cases here : table.rows[row]? with
        | none => simp [Instruction.perform, here] at performed
        | some before =>
            simp only [Instruction.perform, here, Option.ite_none_right_eq_some] at performed
            exact Option.some.inj performed.2 ▸ .setDefault here performed.1 value
    | eraseRows row prior =>
        by_cases inside : row < table.rows.length
        · simp only [Instruction.perform, dif_pos inside,
            Option.ite_none_right_eq_some] at performed
          obtain ⟨rfl, same⟩ := performed
          exact Option.some.inj same ▸ .eraseRows inside
        · simp only [Instruction.perform, dif_neg inside] at performed
          cases performed
  · intro performs
    cases performs with
    | insertEmptyRows positive => exact if_pos rfl
    | set here value => exact if_pos (List.getElem?_eq_some_iff.mp here).1
    | setDefault here inserted value => simp only [Instruction.perform, here, if_pos inserted]
    | eraseRows inside => simp only [Instruction.perform, dif_pos inside, if_true]

namespace Table

/-- A log is performed on a table. -/
def perform (empty : β) (first : Nat) (table : Table β) : List (Instruction β) → Option (Table β)
  | [] => some table
  | instruction :: log =>
      (instruction.perform empty first table).bind fun after => after.perform empty first log

/-- A transaction is committed. It gives default values to rows that it inserts. -/
def commit (empty : β) (table : Table β) (log : List (Instruction β)) : Option (Table β) :=
  table.perform empty table.next log

/-- Transactions are committed one after the other. -/
def commits (empty : β) (table : Table β) (logs : List (List (Instruction β))) :
    Option (Table β) :=
  logs.foldlM (commit empty) table

variable {empty : β} {first : Nat} {table after : Table β}

/-- An instruction gives no id again. -/
theorem next_le_of_performs {instruction : Instruction β}
    (performs : Performs empty first table instruction after) : table.next ≤ after.next := by
  cases performs with
  | insertEmptyRows => exact Nat.le_add_right _ _
  | set | setDefault | eraseRows => exact Nat.le_refl _

/-- A log gives no id again. -/
theorem next_le_of_perform {log : List (Instruction β)}
    (performed : table.perform empty first log = some after) : table.next ≤ after.next := by
  induction log generalizing table with
  | nil =>
      obtain rfl := Option.some.inj performed
      exact Nat.le_refl _
  | cons instruction log ih =>
      obtain ⟨middle, here, later⟩ := Option.bind_eq_some_iff.mp performed
      exact (next_le_of_performs (perform_eq_some_iff.mp here)).trans (ih later)

/-- A row that was not inserted since was there before. -/
theorem mem_ids_of_perform {log : List (Instruction β)} {id : Nat}
    (performed : table.perform empty first log = some after) (member : id ∈ after.ids)
    (old : id < table.next) : id ∈ table.ids := by
  induction log generalizing table with
  | nil =>
      obtain rfl := Option.some.inj performed
      exact member
  | cons instruction log ih =>
      obtain ⟨middle, here, later⟩ := Option.bind_eq_some_iff.mp performed
      have performs := perform_eq_some_iff.mp here
      have listed := ih later (old.trans_le (next_le_of_performs performs))
      cases performs with
      | insertEmptyRows =>
          rw [ids_insertEmptyRows, List.mem_append] at listed
          refine listed.resolve_right fun fresh => ?_
          have := (List.mem_range'_1.mp fresh).1
          omega
      | set | setDefault => rwa [ids_set] at listed
      | eraseRows inside =>
          rw [ids_eraseRows] at listed
          refine List.mem_of_mem_eraseIdx ((moveLastOver_perm _ _ ?_).mem_iff.mp listed)
          rwa [length_ids]

/-- To perform a log is to perform its beginning, and then the rest. -/
theorem perform_append (table : Table β) (log rest : List (Instruction β)) :
    table.perform empty first (log ++ rest) =
      (table.perform empty first log).bind fun middle => middle.perform empty first rest := by
  induction log generalizing table with
  | nil => rfl
  | cons instruction log ih =>
      simp only [List.cons_append, perform, ih]
      exact (Option.bind_assoc ..).symm

/-- What is performed for a transaction is also performed for one that began earlier. -/
theorem perform_mono {earlier : Nat} {log : List (Instruction β)} (begun : earlier ≤ first)
    (performed : table.perform empty first log = some after) :
    table.perform empty earlier log = some after := by
  induction log generalizing table with
  | nil => exact performed
  | cons instruction log ih =>
      obtain ⟨middle, here, later⟩ := Option.bind_eq_some_iff.mp performed
      refine Option.bind_eq_some_iff.mpr ⟨middle, perform_eq_some_iff.mpr ?_, ih later⟩
      cases perform_eq_some_iff.mp here with
      | insertEmptyRows positive => exact .insertEmptyRows positive
      | set found value => exact .set found value
      | setDefault found inserted value => exact .setDefault found (begun.trans inserted) value
      | eraseRows inside => exact .eraseRows inside

/-- **Transactions one after the other** are performed as one. -/
theorem perform_of_commits {logs : List (List (Instruction β))} (begun : first ≤ table.next)
    (committed : table.commits empty logs = some after) :
    table.perform empty first logs.flatten = some after := by
  induction logs generalizing table with
  | nil => exact committed
  | cons log logs ih =>
      rw [commits, List.foldlM_cons] at committed
      obtain ⟨middle, here, later⟩ := Option.bind_eq_some_iff.mp committed
      rw [List.flatten_cons, perform_append, perform_mono begun here]
      exact ih (begun.trans (next_le_of_perform here)) later

/-- To commit logs is to commit the first ones, and then the rest. -/
theorem commits_append (table : Table β) (logs rest : List (List (Instruction β))) :
    table.commits empty (logs ++ rest) =
      (table.commits empty logs).bind fun middle => middle.commits empty rest :=
  List.foldlM_append

end Table

/-- A log that is being read: the table so far, the changes recorded, and the rows whose
value was set. Rows known by the first number or one after it have been inserted since. -/
structure Reading (β : Type*) where
  first : Nat
  table : Table β
  changes : CollectionChangeBuilder
  modified : List Nat

namespace Reading

/-- Nothing has been read. -/
def start (table : Table β) : Reading β := ⟨table.next, table, CollectionChangeBuilder.none, []⟩

def next (empty : β) (reading : Reading β) (instruction : Instruction β) : Option (Reading β) :=
  (instruction.perform empty reading.first reading.table).map fun table =>
    { reading with
      table
      changes := instruction.observe reading.changes
      modified := instruction.sets reading.table ++ reading.modified }

/-- A log is read to its end. -/
def read (empty : β) (reading : Reading β) : List (Instruction β) → Option (Reading β)
  | [] => some reading
  | instruction :: log => (reading.next empty instruction).bind fun after => after.read empty log

/-- Reading a log performs it. -/
theorem table_read (empty : β) (reading : Reading β) (log : List (Instruction β)) :
    (reading.read empty log).map Reading.table =
      reading.table.perform empty reading.first log := by
  induction log generalizing reading with
  | nil => rfl
  | cons instruction log ih =>
      rw [read, next, Table.perform]
      cases instruction.perform empty reading.first reading.table with
      | none => rfl
      | some after => exact ih _

/-- What has been read is told by the changes. -/
structure Sound (old : Table β) (reading : Reading β) : Prop where
  first : reading.first = old.next
  older : old.next ≤ reading.table.next
  tracks : RowTracks reading.changes old.ids reading.table.ids (· ∈ reading.modified)
  known : ∀ id ∈ reading.modified, id < reading.table.next
  same : ∀ row ∈ reading.table.rows, row.id < old.next → row.id ∉ reading.modified →
    row ∈ old.rows

/-- Nothing is read at first. -/
theorem sound_start (table : Table β) : Sound table (start table) where
  first := rfl
  older := Nat.le_refl _
  tracks := by
    have none := RowTracks.none table.distinct
    have nothing : (fun _ : Nat => False) = (· ∈ ([] : List Nat)) := by simp
    rwa [nothing] at none
  known := by simp [start]
  same row member _ _ := member

variable {old : Table β} {empty : β} {reading after : Reading β}

/-- New rows are observed as inserted. -/
theorem Sound.insertEmptyRows {count : Nat} (sound : Sound old reading) (positive : 0 < count) :
    Sound old { reading with
      table := reading.table.insertEmptyRows empty count
      changes := reading.changes.insert reading.table.rows.length count positive } where
  first := sound.first
  older := sound.older.trans (Nat.le_add_right _ _)
  tracks := by
    have length : (List.range' reading.table.next count).length = count := List.length_range'
    have inserted := sound.tracks.insert (length.symm ▸ positive) ?_
      (reading.table.ids_append_nodup count)
    · simp only [length, Table.length_ids] at inserted
      rwa [Table.ids_insertEmptyRows]
    · intro id member
      have fresh := (List.mem_range'_1.mp member).1
      refine ⟨fun among => ?_, fun among => ?_⟩
      · have := old.below_of_mem_ids among
        have := sound.older
        omega
      · have := sound.known id among
        omega
  known id member := Nat.lt_add_right _ (sound.known id member)
  same row member before unset := by
    rcases List.mem_append.mp member with kept | new
    · exact sound.same row kept before unset
    · obtain ⟨id, among, rfl⟩ := List.mem_map.mp new
      have := (List.mem_range'_1.mp among).1
      have := sound.older
      dsimp only at before
      omega

/-- A row whose value is not set is as it was. -/
theorem mem_of_mem_set {table : Table β} {row : Nat} {value : β} {before other : Row β}
    (here : table.rows[row]? = some before) (member : other ∈ (table.set row value).rows)
    (apart : other.id ≠ before.id) : other ∈ table.rows := by
  obtain ⟨index, found⟩ := List.mem_iff_getElem?.mp member
  rw [Table.set, List.getElem?_modify] at found
  by_cases same : row = index
  · subst same
    simp only [here, if_pos, Option.map_eq_map, Option.map_some, Option.some.injEq] at found
    exact absurd (congrArg Row.id found).symm apart
  · simp only [if_neg same, Option.map_eq_map, Option.map_id'] at found
    exact List.mem_of_getElem? found

/-- A row that is set is observed as modified. -/
theorem Sound.set {row : Nat} {value : β} {before : Row β} (sound : Sound old reading)
    (here : reading.table.rows[row]? = some before) :
    Sound old { reading with
      table := reading.table.set row value
      changes := reading.changes.modify row
      modified := before.id :: reading.modified } where
  first := sound.first
  older := sound.older
  tracks := by
    rw [Table.ids_set]
    have listed : reading.table.ids[row]? = some before.id := by
      rw [Table.getElem?_ids, here, Option.map_some]
    refine (sound.tracks.modify listed).congr fun id => ?_
    rw [List.mem_cons, or_comm]
  known id member := by
    rcases List.mem_cons.mp member with rfl | earlier
    · exact reading.table.below before (List.mem_of_getElem? here)
    · exact sound.known id earlier
  same other member inside unset := by
    rw [List.mem_cons, not_or] at unset
    exact sound.same other (mem_of_mem_set here member unset.1) inside unset.2

/-- A default that is set in a new row is not observed. -/
theorem Sound.setDefault {row : Nat} {value : β} {before : Row β} (sound : Sound old reading)
    (here : reading.table.rows[row]? = some before) (inserted : reading.first ≤ before.id) :
    Sound old { reading with table := reading.table.set row value } where
  first := sound.first
  older := sound.older
  tracks := by
    rw [Table.ids_set]
    exact sound.tracks
  known := sound.known
  same other member inside unset := by
    refine sound.same other (mem_of_mem_set here member fun same => ?_) inside unset
    rw [sound.first] at inserted
    omega

/-- An erased row is observed as moved over. -/
theorem Sound.eraseRows {row : Nat} (sound : Sound old reading)
    (inside : row < reading.table.rows.length) :
    Sound old { reading with
      table := reading.table.eraseRows row inside
      changes := reading.changes.moveOver row (reading.table.rows.length - 1) } where
  first := sound.first
  older := sound.older
  tracks := by
    rw [Table.ids_eraseRows]
    refine sound.tracks.moveOver ?_ (by omega)
    rw [Table.length_ids]
    omega
  known := sound.known
  same other member before unset :=
    sound.same other (List.mem_of_mem_eraseIdx ((moveLastOver_perm _ _ inside).mem_iff.mp member))
      before unset

/-- **Each instruction** keeps the changes telling what was read. -/
theorem Sound.next {instruction : Instruction β} (sound : Sound old reading)
    (performed : reading.next empty instruction = some after) : Sound old after := by
  obtain ⟨table, done, rfl⟩ := Option.map_eq_some_iff.mp performed
  cases perform_eq_some_iff.mp done with
  | insertEmptyRows positive => exact sound.insertEmptyRows positive
  | @set row before here value =>
      have sets : (Instruction.set row value).sets reading.table = [before.id] := by
        rw [Instruction.sets, Table.getElem?_ids, here]
        rfl
      rw [sets]
      exact sound.set here
  | setDefault here inserted value => exact sound.setDefault here inserted
  | eraseRows inside => exact sound.eraseRows inside

/-- **Every log is observed as it is performed**; the induction is on the instructions that are
left. -/
theorem Sound.read {log : List (Instruction β)} (sound : Sound old reading)
    (performed : reading.read empty log = some after) : Sound old after := by
  induction log generalizing reading with
  | nil =>
      obtain rfl := Option.some.inj performed
      exact sound
  | cons instruction log ih =>
      obtain ⟨middle, first, rest⟩ := Option.bind_eq_some_iff.mp performed
      exact ih (sound.next first) rest

/-- **What is read of a log finds every row again**: a row of the table before is where the
changes lead it, and gone if they lead it nowhere; the rows of the table after that are told
to be modified are those whose value was set, and a row that is found again and is not among
them has the value that it had. -/
theorem finds_rows {table : Table β} {log : List (Instruction β)}
    (performed : (start table).read empty log = some after) :
    (∀ row id place, table.ids[row]? = some id →
      (after.changes.parseComplete.rowAfter row = some place ↔ after.table.ids[place]? = some id)) ∧
    (∀ place, place ∈ after.changes.parseComplete.modifications.toFinset ↔
      ∃ id ∈ after.modified, after.table.ids[place]? = some id) ∧
    ∀ row place, row < table.rows.length →
      after.changes.parseComplete.rowAfter row = some place →
      place ∉ after.changes.parseComplete.modifications.toFinset →
      after.table.rows[place]? = table.rows[row]? := by
  have sound := (sound_start table).read performed
  have complete := sound.tracks.parseComplete
  have modified : ∀ place, place ∈ after.changes.parseComplete.modifications.toFinset ↔
      ∃ id ∈ after.modified, after.table.ids[place]? = some id := fun place => by
    rw [complete.modified]
    exact exists_congr fun id => and_comm
  refine ⟨fun row id place here => complete.rowAfter_eq_some_iff here, modified, ?_⟩
  intro row place inside found unset
  have here : table.ids[row]? = some table.rows[row].id := by
    rw [table.getElem?_ids, List.getElem?_eq_getElem inside, Option.map_some]
  have there := (complete.rowAfter_eq_some_iff here).mp found
  have listed := there
  rw [after.table.getElem?_ids] at listed
  obtain ⟨item, item_there, same⟩ := Option.map_eq_some_iff.mp listed
  have old : item ∈ table.rows := by
    apply sound.same item (List.mem_of_getElem? item_there)
    · rw [same]
      exact table.below _ (List.getElem_mem inside)
    · exact fun set => unset ((modified place).mpr ⟨_, set, same ▸ there⟩)
  rw [item_there, List.getElem?_eq_getElem inside,
    List.inj_on_of_nodup_map table.distinct old (List.getElem_mem inside) same]

/-- The second of two rows is set and moved over the first one. -/
theorem finds_rows_moved :
    ∃ after, (start (⟨[⟨0, 7⟩, ⟨1, 8⟩], 2, by decide, by decide⟩ : Table Nat)).read 0
        [.set 1 9, .eraseRows 0 2] = some after ∧
      after.changes.parseComplete.rowAfter 1 = some 0 ∧
      0 ∈ after.changes.parseComplete.modifications.toFinset := by
  obtain ⟨after, performed, there, modified⟩ : ∃ after,
      (start (⟨[⟨0, 7⟩, ⟨1, 8⟩], 2, by decide, by decide⟩ : Table Nat)).read 0
        [.set 1 9, .eraseRows 0 2] = some after ∧
      after.table.ids[0]? = some 1 ∧ 1 ∈ after.modified := ⟨_, rfl, rfl, List.mem_singleton_self 1⟩
  obtain ⟨found, told, _⟩ := finds_rows performed
  exact ⟨after, performed, (found 1 1 0 rfl).mpr there, (told 0).mpr ⟨1, modified, there⟩⟩

end Reading

end EventTalks.Realm

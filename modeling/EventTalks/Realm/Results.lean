import EventTalks.Realm.Calculate
import EventTalks.Realm.TransactLog

/-! # The changes of a live collection

A live collection lists rows of a table. After a log has been read, the rows of the collection
before are found again in the table after, and the changes to the rows of the collection after
are calculated (`EventTalks.Realm.ResultsNotifier.calculateChanges`). They tell how the
collection changed (`EventTalks.Realm.Reading.Sound.told`), also after they have been merged
into changes from before (`EventTalks.Realm.Told.merge`), and when the rows that stay keep
their order, they tell no more than what is gone, new or set
(`EventTalks.Realm.calculateChanges_minimal`).
-/

namespace EventTalks.Realm

open Foundation

variable {β : Type*}

/-- A live collection in a sort order: the rows that are in it at every state of the table,
none twice. -/
structure Results (β : Type*) where
  rows : Table β → List Nat
  inside : ∀ table, ∀ row ∈ rows table, row < table.rows.length
  distinct : ∀ table, (rows table).Nodup

namespace Results

def items (results : Results β) (table : Table β) : List (Row β) :=
  (results.rows table).filterMap fun row => table.rows[row]?

def ids (results : Results β) (table : Table β) : List Nat := (results.items table).map Row.id

end Results

namespace ResultsNotifier

/-- The rows of the collection before, found again after the changes of the table, and the
rows after tell the changes of the collection. -/
def calculateChanges (previousRows nextRows : List Nat) (info : CollectionChangeBuilder) :
    CollectionChangeBuilder :=
  CollectionChangeBuilder.calculate (previousRows.map info.rowAfter) nextRows
    info.modifications.contains

end ResultsNotifier

/-! ## Collections -/

namespace Results

variable {results : Results β} {table base : Table β}

/-- The items of a collection are the rows of the table that it lists. -/
theorem map_some_items (results : Results β) (table : Table β) :
    (results.items table).map some = (results.rows table).map fun row => table.rows[row]? := by
  have found : ∀ rows : List Nat, (∀ row ∈ rows, row < table.rows.length) →
      (rows.filterMap fun row => table.rows[row]?).map some =
        rows.map fun row => table.rows[row]? := by
    intro rows inside
    induction rows with
    | nil => rfl
    | cons row rest ih =>
        obtain ⟨here, later⟩ := List.forall_mem_cons.mp inside
        rw [List.filterMap_cons, List.getElem?_eq_getElem here, List.map_cons, List.map_cons,
          ih later, List.getElem?_eq_getElem here]
  exact found _ (results.inside table)

/-- A query has as many items as rows. -/
@[simp] theorem length_items (results : Results β) (table : Table β) :
    (results.items table).length = (results.rows table).length := by
  have same := congrArg List.length (results.map_some_items table)
  rwa [List.length_map, List.length_map] at same

/-- A query has as many ids as rows. -/
@[simp] theorem length_ids (results : Results β) (table : Table β) :
    (results.ids table).length = (results.rows table).length := by
  rw [ids, List.length_map, length_items]

/-- The item at an index is the row that the query has there. -/
theorem getElem?_items {index row : Nat} (here : (results.rows table)[index]? = some row) :
    (results.items table)[index]? = table.rows[row]? := by
  have same := congrArg (·[index]?) (results.map_some_items table)
  simp only [List.getElem?_map, here, Option.map_some] at same
  obtain ⟨item, found, same⟩ := Option.map_eq_some_iff.mp same
  rw [found, same]

/-- The id at an index is that of the row that the query has there. -/
theorem getElem?_ids {index row : Nat} (here : (results.rows table)[index]? = some row) :
    (results.ids table)[index]? = table.ids[row]? := by
  rw [ids, List.getElem?_map, getElem?_items here, table.getElem?_ids]

/-- The items of a query are rows of the table. -/
theorem mem_items {row : Row β} (member : row ∈ results.items table) : row ∈ table.rows := by
  obtain ⟨index, _, found⟩ := List.mem_filterMap.mp member
  exact List.mem_of_getElem? found

/-- The ids of a query are ids of the table. -/
theorem mem_ids {id : Nat} (member : id ∈ results.ids table) : id ∈ table.ids := by
  obtain ⟨row, among, same⟩ := List.mem_map.mp member
  exact List.mem_map.mpr ⟨row, mem_items among, same⟩

/-- A row of the table that is known by what an item is known by is that item. -/
theorem mem_items_of_mem_ids {row : Row β} (member : row ∈ table.rows)
    (listed : row.id ∈ results.ids table) : row ∈ results.items table := by
  obtain ⟨item, among, same⟩ := List.mem_map.mp listed
  rwa [← List.inj_on_of_nodup_map table.distinct (mem_items among) member same]

/-- Collections of the same rows, none of which has another value, are the same. -/
theorem items_eq (ids : results.ids base = results.ids table)
    (kept : ∀ row ∈ results.items table, row ∈ base.rows) :
    results.items base = results.items table := by
  apply List.ext_getElem?
  intro index
  have same : (results.items base)[index]?.map Row.id =
      (results.items table)[index]?.map Row.id := by
    rw [← List.getElem?_map, ← List.getElem?_map]
    exact congrArg (·[index]?) ids
  cases before : (results.items base)[index]? with
  | none =>
      rw [before] at same
      exact (Option.map_eq_none_iff.mp same.symm).symm
  | some old =>
      rw [before, Option.map_some] at same
      obtain ⟨new, after, equal⟩ := Option.map_eq_some_iff.mp same.symm
      rw [after, List.inj_on_of_nodup_map base.distinct (mem_items (List.mem_of_getElem? before))
        (kept new (List.mem_of_getElem? after)) equal.symm]

section Sorted

variable (le : β → β → Prop) [DecidableRel le]

/-- All rows, sorted by their values; rows whose values are alike stay in the order of the
table. -/
def sortedBy : Results β where
  rows table :=
    (table.rows.zipIdx.insertionSort fun first second => le first.1.value second.1.value).map
      Prod.snd
  inside table row member := by
    obtain ⟨pair, listed, rfl⟩ := List.mem_map.mp member
    exact (List.mem_zipIdx' ((List.mem_insertionSort _).mp listed)).1
  distinct table := by
    refine ((List.perm_insertionSort _ _).map Prod.snd).nodup_iff.mpr ?_
    rw [List.zipIdx_map_snd]
    exact List.nodup_range'

/-- **The items of a sorted collection** are the sorted rows of the table. -/
theorem items_sortedBy (table : Table β) : (sortedBy le).items table =
    table.rows.insertionSort fun first second => le first.value second.value := by
  have found : ∀ pair ∈ table.rows.zipIdx.insertionSort
      (fun first second => le first.1.value second.1.value), table.rows[pair.2]? = some pair.1 :=
    fun pair member => List.mem_zipIdx_iff_getElem?.mp ((List.mem_insertionSort _).mp member)
  have sorted : (table.rows.zipIdx.insertionSort
      fun first second => le first.1.value second.1.value).map Prod.fst =
        table.rows.insertionSort fun first second => le first.value second.value := by
    refine (List.map_insertionSort _ (fun first second : Row β => le first.value second.value)
      Prod.fst _ fun _ _ _ _ => Iff.rfl).trans ?_
    rw [List.zipIdx_map_fst]
  rw [items, sortedBy, List.filterMap_map, ← sorted, ← List.filterMap_eq_map]
  exact List.filterMap_congr found

end Sorted

/-- Numbers, the least one first. -/
def ascending : Results Nat := sortedBy (· ≤ ·)

end Results

/-! ## What is told -/

/-- Changes that tell how a collection changed from one table to a later one, when some rows
had their value set. -/
structure Told (results : Results β) (base table : Table β) (changes : CollectionChangeBuilder)
    (modified : List Nat) : Prop where
  tracks : Tracks changes (results.ids base) (results.ids table) (· ∈ modified)
  older : base.next ≤ table.next
  same : ∀ row ∈ table.rows, row.id < base.next → row.id ∉ modified → row ∈ base.rows

section Told

variable {results : Results β} {base table : Table β} {changes : CollectionChangeBuilder}
  {modified : List Nat} {reading : Reading β}

/-- The rows of a collection before, found again after a log. -/
theorem getElem?_map_rowAfter {changed : Nat → Prop} {info : CollectionChangeBuilder}
    (complete : TableTracks info base.ids table.ids changed) {source row : Nat} :
    ((results.rows base).map info.rowAfter)[source]? = some (some row) ↔
      ∃ id, (results.ids base)[source]? = some id ∧ table.ids[row]? = some id := by
  rw [List.getElem?_map, Option.map_eq_some_iff]
  constructor
  · intro ⟨old, here, found⟩
    have inside := results.inside base old (List.mem_of_getElem? here)
    have item := List.getElem?_eq_getElem (base.length_ids.symm ▸ inside)
    refine ⟨_, (Results.getElem?_ids here).trans item, ?_⟩
    exact (complete.rowAfter_eq_some_iff item).mp found
  · intro ⟨id, here, there⟩
    have inside := (List.getElem?_eq_some_iff.mp here).1
    rw [results.length_ids] at inside
    have row := List.getElem?_eq_getElem inside
    refine ⟨_, row, ?_⟩
    exact (complete.rowAfter_eq_some_iff ((Results.getElem?_ids row).symm.trans here)).mpr there

/-- **The changes that are calculated** from the log between two tables tell how the
collection changed. -/
theorem Reading.Sound.told (sound : reading.Sound table) :
    Told results table reading.table
      (ResultsNotifier.calculateChanges (results.rows table) (results.rows reading.table)
        reading.changes.parseComplete) reading.modified := by
  have complete := sound.tracks.parseComplete
  refine ⟨?_, sound.older, sound.same⟩
  apply CollectionChangeBuilder.calculate_tracks .stable
  · rw [List.length_map, results.length_ids]
  · rw [results.length_ids]
  · intro source target row before after
    obtain ⟨id, here, there⟩ := (getElem?_map_rowAfter complete).mp before
    rw [here, Results.getElem?_ids after, there]
  · intro target row item after listed
    rw [Results.getElem?_ids after] at listed
    rw [IndexSet.contains_iff, complete.modified]
    constructor
    · intro ⟨other, here, changed⟩
      rwa [← Option.some.inj (here.symm.trans listed)]
    · exact fun changed => ⟨item, listed, changed⟩

/-- What is calculated is merged into what was told before. -/
theorem Told.merge (told : Told results base table changes modified)
    {next : CollectionChangeBuilder}
    (told' : Told results table reading.table next reading.modified) :
    Told results base reading.table (changes.merge next) (reading.modified ++ modified) where
  tracks := (told.tracks.merge told'.tracks).congr fun item _ => by
    rw [List.mem_append, or_comm]
  older := told.older.trans told'.older
  same row member before unset := by
    rw [List.mem_append, not_or] at unset
    exact told.same row (told'.same row member (before.trans_le told.older) unset.1) before unset.2

/-- Nothing is told when nothing is accumulated. -/
theorem told_none (results : Results β) (table : Table β) :
    Told results table table CollectionChangeBuilder.none [] where
  tracks := by
    refine (tracks_none (results.ids table)).congr fun item _ => ?_
    simp
  older := Nat.le_refl _
  same row member _ _ := member

/-- When nothing is told, what was accumulated told nothing. -/
theorem Told.unchanged (told : Told results base table changes modified)
    (empty : changes.finalize.empty = true) :
    Told results base table CollectionChangeBuilder.none modified where
  tracks := by
    obtain ⟨same, unchanged⟩ := told.tracks.of_empty (empty_of_finalize empty)
    rw [same]
    exact (tracks_none _).congr fun item member =>
      (iff_false_right (unchanged item member)).mpr not_false
  older := told.older
  same := told.same

/-- **When there is nothing to deliver**, the collection is as it was. -/
theorem Told.items_eq (told : Told results base table changes modified)
    (empty : changes.finalize.empty = true) : results.items base = results.items table := by
  obtain ⟨ids, unchanged⟩ := told.tracks.of_empty (empty_of_finalize empty)
  apply Results.items_eq ids
  intro row member
  have listed : row.id ∈ results.ids table := List.mem_map_of_mem member
  refine told.same row (Results.mem_items member) ?_ (unchanged _ listed)
  exact base.below_of_mem_ids (Results.mem_ids (ids ▸ listed))

end Told

/-- What changes tell of a collection from one table to a later one: they lead from the one
collection to the other, rows that stay are told to be modified if their value was set, and a
row whose value was not set has the value that it had. -/
structure Tells (results : Results β) (base table : Table β) (changes : CollectionChangeSet)
    (modified : List Nat) : Prop where
  describes : changes.edits.Describes (results.ids base) (results.ids table)
  refreshed : ∀ index, index ∈ changes.edits.modifications ↔ index ∉ changes.edits.deletions ∧
    ∃ id ∈ modified, (results.ids base)[index]? = some id
  unchanged : ∀ row ∈ results.items table, row.id ∈ results.ids base → row.id ∉ modified →
    row ∈ results.items base

/-- What was told in the rows of the table tells of the collection. -/
theorem Told.tells {results : Results β} {base table : Table β}
    {changes : CollectionChangeBuilder} {modified : List Nat}
    (told : Told results base table changes modified) :
    Tells results base table changes.finalize modified where
  describes := told.tracks.describes_finalize
  refreshed index := by
    have listed := @Tracks.mem_finalize_modifications _ _ _ _ _ told.tracks index
    rw [IndexSet.toFinset, IndexSet.toFinset, List.mem_toFinset, List.mem_toFinset] at listed
    refine listed.trans (and_congr_right fun _ => ?_)
    exact exists_congr fun id => and_comm
  unchanged row member listed unset := by
    have before := base.below_of_mem_ids (Results.mem_ids listed)
    exact Results.mem_items_of_mem_ids (told.same row (Results.mem_items member) before unset)
      listed

/-! ## When the rows that stay keep their order -/

section Minimal

variable {results : Results β} {table : Table β} {empty : β} {reading : Reading β}
  {log : List (Instruction β)}

/-- No two rows of a query are found at one index afterwards. -/
theorem nodup_map_rowAfter {base table : Table β} {changed : Nat → Prop}
    {info : CollectionChangeBuilder} (complete : TableTracks info base.ids table.ids changed) :
    (((results.rows base).map info.rowAfter).filterMap id).Nodup := by
  rw [List.filterMap_map]
  refine List.pairwise_filterMap.mpr ((results.distinct base).imp_of_mem ?_)
  intro old old' member member' apart row found row' found' same
  have item := List.getElem?_eq_getElem
    (base.length_ids.symm ▸ results.inside base old member)
  have item' := List.getElem?_eq_getElem
    (base.length_ids.symm ▸ results.inside base old' member')
  have there := (complete.rowAfter_eq_some_iff item).mp found
  have there' := (complete.rowAfter_eq_some_iff item').mp found'
  rw [same, there'] at there
  refine apart ((List.getElem?_inj (List.getElem?_eq_some_iff.mp item).1 complete.distinct.1).mp ?_)
  rw [item, item', Option.some.inj there]

/-- **A log that leaves the rows of both collections in their order** is told by the rows that
are gone, those that are new, and those of both whose value was set. -/
theorem calculateChanges_minimal
    (read : (Reading.start table).read empty log = some reading)
    (ordered : ∀ source target source' target' id id' : Nat,
      (results.ids table)[source]? = some id → (results.ids reading.table)[target]? = some id →
      (results.ids table)[source']? = some id' →
      (results.ids reading.table)[target']? = some id' → target < target' → source < source') :
    let edits := (ResultsNotifier.calculateChanges (results.rows table) (results.rows reading.table)
      reading.changes.parseComplete).finalize.edits
    (∀ index, index ∈ edits.deletions ↔
      ∃ id, (results.ids table)[index]? = some id ∧ id ∉ results.ids reading.table) ∧
    (∀ index, index ∈ edits.insertions ↔
      ∃ id, (results.ids reading.table)[index]? = some id ∧ id ∉ results.ids table) ∧
    ∀ index, index ∈ edits.modifications ↔ ∃ id, (results.ids table)[index]? = some id ∧
      id ∈ results.ids reading.table ∧ id ∈ reading.modified := by
  intro edits
  have sound := (Reading.sound_start table).read read
  have complete := sound.tracks.parseComplete
  have found (source row : Nat) := @getElem?_map_rowAfter _ results table reading.table _ _ complete
    source row
  have listed : ∀ {target id : Nat}, (results.ids reading.table)[target]? = some id →
      ∃ row, (results.rows reading.table)[target]? = some row ∧
        reading.table.ids[row]? = some id := by
    intro target id there
    have inside := (List.getElem?_eq_some_iff.mp there).1
    rw [results.length_ids] at inside
    have row := List.getElem?_eq_getElem inside
    exact ⟨_, row, (Results.getElem?_ids row).symm.trans there⟩
  obtain ⟨deleted, inserted⟩ := @CollectionChangeBuilder.calculate_minimal _
    (results.rows reading.table) .stable reading.changes.parseComplete.modifications.contains
    (@nodup_map_rowAfter _ results _ _ _ _ complete) (results.distinct _) (by
      intro source target row source' target' row' before after before' after' less
      obtain ⟨id, here, there⟩ := (found source row).mp before
      obtain ⟨id', here', there'⟩ := (found source' row').mp before'
      rw [← Results.getElem?_ids after] at there
      rw [← Results.getElem?_ids after'] at there'
      exact ordered source target source' target' id id' here there here' there' less)
  have deletions : ∀ index, index ∈ edits.deletions ↔
      ∃ id, (results.ids table)[index]? = some id ∧ id ∉ results.ids reading.table := by
    intro index
    rw [← List.mem_toFinset]
    refine (deleted index).trans ?_
    rw [List.length_map]
    constructor
    · intro ⟨inside, gone⟩
      rw [← results.length_ids] at inside
      have here := List.getElem?_eq_getElem inside
      refine ⟨_, here, fun stays => ?_⟩
      obtain ⟨target, there⟩ := List.mem_iff_getElem?.mp stays
      obtain ⟨row, after, place⟩ := listed there
      exact gone row ((found index row).mpr ⟨_, here, place⟩) (List.mem_of_getElem? after)
    · intro ⟨id, here, gone⟩
      refine ⟨results.length_ids table ▸ (List.getElem?_eq_some_iff.mp here).1,
        fun row before among => ?_⟩
      obtain ⟨id', here', place⟩ := (found index row).mp before
      obtain ⟨target, after⟩ := List.mem_iff_getElem?.mp among
      rw [← Results.getElem?_ids after] at place
      exact gone (Option.some.inj (here'.symm.trans here) ▸ List.mem_of_getElem? place)
  refine ⟨deletions, fun index => ?_, fun index => ?_⟩
  · rw [← List.mem_toFinset]
    refine (inserted index).trans ?_
    constructor
    · intro ⟨row, after, fresh⟩
      have inside := results.inside _ row (List.mem_of_getElem? after)
      have place := List.getElem?_eq_getElem (reading.table.length_ids.symm ▸ inside)
      refine ⟨_, (Results.getElem?_ids after).trans place, fun stays => ?_⟩
      obtain ⟨source, here⟩ := List.mem_iff_getElem?.mp stays
      exact fresh (List.mem_of_getElem? ((found source row).mpr ⟨_, here, place⟩))
    · intro ⟨id, there, fresh⟩
      obtain ⟨row, after, place⟩ := listed there
      refine ⟨row, after, fun among => ?_⟩
      obtain ⟨source, before⟩ := List.mem_iff_getElem?.mp among
      obtain ⟨id', here, place'⟩ := (found source row).mp before
      exact fresh (Option.some.inj (place'.symm.trans place) ▸ List.mem_of_getElem? here)
  · have told : Told results _ _ _ _ := sound.told
    rw [told.tells.refreshed, deletions]
    constructor
    · intro ⟨kept, id, modified, here⟩
      exact ⟨id, here, not_not.mp fun gone => kept ⟨id, here, gone⟩, modified⟩
    · intro ⟨id, here, stays, modified⟩
      refine ⟨fun ⟨other, here', gone⟩ => gone ?_, id, modified, here⟩
      rwa [← Option.some.inj (here.symm.trans here')]

/-- The first of two rows is set and the second one is removed. -/
theorem calculateChanges_minimal_removed :
    ∃ reading, (Reading.start (⟨[⟨0, 7⟩, ⟨1, 8⟩], 2, by decide, by decide⟩ : Table Nat)).read 0
        [.set 0 9, .eraseRows 1 2] = some reading ∧
      let edits := (ResultsNotifier.calculateChanges [0, 1] [0]
        reading.changes.parseComplete).finalize.edits
      1 ∈ edits.deletions ∧ 0 ∈ edits.modifications := by
  obtain ⟨reading, read, ids, modified, rows⟩ : ∃ reading,
      (Reading.start (⟨[⟨0, 7⟩, ⟨1, 8⟩], 2, by decide, by decide⟩ : Table Nat)).read 0
        [.set 0 9, .eraseRows 1 2] = some reading ∧
      Results.ascending.ids reading.table = [0] ∧ reading.modified = [0] ∧
      Results.ascending.rows reading.table = [0] := ⟨_, rfl, rfl, rfl, rfl⟩
  refine ⟨reading, read, ?_⟩
  obtain ⟨deleted, _, refreshed⟩ := @calculateChanges_minimal _ Results.ascending _ _ _ _ read (by
    intro source target source' target' id id' _ there _ there' less
    rw [ids] at there'
    have := (List.getElem?_eq_some_iff.mp there').1
    exact absurd less (by simpa using Nat.lt_one_iff.mp this ▸ Nat.zero_le target))
  rw [rows] at deleted refreshed
  refine ⟨(deleted 1).mpr ⟨1, rfl, by simp [ids]⟩, (refreshed 0).mpr ⟨0, rfl, ?_, ?_⟩⟩
  · simp [ids]
  · simp [modified]

end Minimal

end EventTalks.Realm

import EventTalks.Server.Talk
import EventTalks.Foundation.KeyedTable
import EventTalks.Foundation.Run

/-! # The talks controller

The controller answers requests from a table of talks. Listing returns the table,
creating saves the decoded talk, and deleting looks a talk up and then removes its
row, with other requests in between. Saving inserts a talk without an identifier and
updates the row of a talk with one, so the table is a map that grows by creations and
shrinks by deletions exactly in the runs in which no created talk brings an identifier
(`EventTalks.Server.TalksController.refines_iff`).
-/

namespace EventTalks.Server

open Foundation

/-- A row of the table: a talk that has its identifier. -/
structure Row where
  talk : Talk
  identified : talk.id.isSome

/-- The identifier of a row. -/
def Row.id (row : Row) : UUID := row.talk.id.get row.identified

theorem Row.id_eq (row : Row) : row.talk.id = some row.id := by simp [Row.id]

/-- The table of talks. -/
abbrev Database := KeyedTable Row.id

/-- The dates that saving puts on a talk. -/
structure Timestamps where
  dateCreated : Option Date := none
  dateModified : Option Date := none

/-- The row that saving writes. -/
def Talk.row (talk : Talk) (id : UUID) (timestamps : Timestamps) : Row where
  talk := { talk with
    id := some id
    dateCreated := timestamps.dateCreated
    dateModified := timestamps.dateModified }
  identified := rfl

@[simp] theorem Talk.id_row (talk : Talk) (id : UUID) (timestamps : Timestamps) :
    (talk.row id timestamps).id = id := rfl

/-- Save a talk: insert it under a new identifier when it has none, and otherwise
update the row with its identifier, which may not exist. -/
def Talk.save (talk : Talk) (new : UUID) (timestamps : Timestamps) (database : Database) :
    Database × Row :=
  match talk.id with
  | none => (database.upsert (talk.row new timestamps), talk.row new timestamps)
  | some id => (database.replace (talk.row id timestamps), talk.row id timestamps)

namespace TalksController

/-- All talks. -/
def index (database : Database) : List Talk := database.rows.map Row.talk

/-- Save a decoded talk. -/
def create (talk : Talk) (new : UUID) (timestamps : Timestamps) (database : Database) :
    Database × Row :=
  talk.save new timestamps database

/-- The talk of a parameter, or none when it is not found. -/
def next (id : UUID) (database : Database) : Option Row := database.get? id

/-- Delete a talk that was looked up. -/
def remove (id : UUID) (database : Database) : Database := database.erase id

/-- What the controller is asked to do: list, create, look up the talk of a deletion,
or remove the talk that a deletion has found. -/
inductive Request where
  | index
  | create (talk : Talk) (new : UUID) (timestamps : Timestamps)
  | lookup (id : UUID)
  | remove (position : Nat)

/-- What the controller answers. -/
inductive Response where
  | talks (talks : List Talk)
  | talk (talk : Talk)
  | noContent
  | notFound

/-- The table, the deletions that have found their talk, and the changes the
controller has acknowledged. -/
structure Service where
  database : Database
  deleting : List UUID := []
  acknowledged : List (Change UUID Talk) := []

/-- Handle a request. A deletion that finds its talk has no answer yet. -/
def Service.handle (service : Service) : Request → Option (Service × Option Response)
  | .index => some (service, some (.talks (TalksController.index service.database)))
  | .create talk new timestamps =>
      let (database, row) := TalksController.create talk new timestamps service.database
      some ({ service with
        database
        acknowledged := service.acknowledged ++ [.put row.id row.talk] }, some (.talk row.talk))
  | .lookup id =>
      match next id service.database with
      | none => some (service, some .notFound)
      | some row => some ({ service with deleting := service.deleting ++ [row.id] }, none)
  | .remove position =>
      service.deleting[position]?.map fun id =>
        ({ service with
            database := TalksController.remove id service.database
            deleting := service.deleting.eraseIdx position
            acknowledged := service.acknowledged ++ [.drop id] }, some .noContent)

/-- The identifiers that saving makes up are not taken. -/
def Request.Fresh (database : Database) : Request → Prop
  | .create _ new _ => new ∉ database.keys
  | .index | .lookup _ | .remove _ => True

/-- The controller under requests in any order. -/
def service : System Service Request where
  step before request after :=
    request.Fresh before.database ∧ ∃ response, before.handle request = some (after, response)

/-- A creation adds one row with a new identifier and the values of the body, and
changes no other row. -/
structure Adds (before : Database) (body answered : Talk) (after : Database) : Prop where
  title : answered.title = body.title
  date : answered.date = body.date
  speakerName : answered.speakerName = body.speakerName
  notes : answered.notes = body.notes
  inserted : ∃ row : Row, row.talk = answered ∧ row.id ∉ before.keys ∧
    ∀ other, other ∈ after.rows ↔ other = row ∨ other ∈ before.rows

/-- A deletion leaves no row with the identifier and changes no other row. -/
def Removes (before : Database) (id : UUID) (after : Database) : Prop :=
  ∀ row, row ∈ after.rows ↔ row ∈ before.rows ∧ row.id ≠ id

/-- A list holds exactly the talks of a map. -/
def Lists (talks : List Talk) (map : UUID → Option Talk) : Prop :=
  (talks.map Talk.id).Nodup ∧
    ∀ talk, talk ∈ talks ↔ ∃ id, talk.id = some id ∧ map id = some talk

/-- The talks of a table, by identifier. -/
def talkMap (database : Database) (id : UUID) : Option Talk := (database.get? id).map Row.talk

/-- What a request's answer promises, over a table that the controller started from. -/
def Promised (initial : Database) (before : Service) (request : Request) (after : Service) :
    Prop :=
  ∀ response, before.handle request = some (after, response) →
    match request, response with
    | .create body _ _, some (.talk answered) => Adds before.database body answered after.database
    | .remove position, some .noContent =>
        ∀ id, before.deleting[position]? = some id → Removes before.database id after.database
    | .index, some (.talks talks) =>
        Lists talks (Change.replay (talkMap initial) after.acknowledged)
    | _, _ => True

theorem talkMap_upsert (database : Database) (row : Row) :
    talkMap (database.upsert row) = Change.apply (talkMap database) (.put row.id row.talk) := by
  funext id
  rw [talkMap, KeyedTable.get?_upsert, Change.apply, Function.update_apply]
  split <;> rfl

theorem talkMap_erase (database : Database) (id : UUID) :
    talkMap (database.erase id) = Change.apply (talkMap database) (.drop id) := by
  funext other
  rw [talkMap, KeyedTable.get?_erase, Change.apply, Function.update_apply]
  split <;> rfl

/-- Listing returns the talks of the table's map. -/
theorem lists_index (database : Database) : Lists (index database) (talkMap database) := by
  constructor
  · have named : (index database).map Talk.id = database.keys.map some := by
      simp only [index, KeyedTable.keys, List.map_map]
      exact List.map_congr_left fun row _ => row.id_eq
    rw [named]
    exact database.unique.map fun _ _ => Option.some.inj
  · intro talk
    simp only [index, talkMap, List.mem_map, Option.map_eq_some_iff, KeyedTable.get?_eq_some]
    constructor
    · intro listed
      rcases listed with ⟨row, member, rfl⟩
      exact ⟨row.id, row.id_eq, row, ⟨member, rfl⟩, rfl⟩
    · intro mapped
      rcases mapped with ⟨id, _, row, ⟨member, _⟩, rfl⟩
      exact ⟨row, member, rfl⟩

/-- Saving a talk without an identifier inserts it. -/
theorem adds_create {talk : Talk} (unidentified : talk.id = none) {database : Database}
    {new : UUID} (fresh : new ∉ database.keys) (timestamps : Timestamps) :
    Adds database talk (talk.row new timestamps).talk (create talk new timestamps database).1 := by
  refine ⟨rfl, rfl, rfl, rfl, talk.row new timestamps, rfl, fresh, fun other => ?_⟩
  rw [create, Talk.save, unidentified, KeyedTable.mem_rows_upsert]
  refine or_congr Iff.rfl ⟨And.left, fun member => ⟨member, fun same => fresh ?_⟩⟩
  rw [Talk.id_row] at same
  exact same ▸ List.mem_map_of_mem member

/-- Saving a talk with an identifier inserts nothing. -/
theorem not_adds_create {talk answered : Talk} (identified : talk.id ≠ none)
    {database : Database} (new : UUID) (timestamps : Timestamps) :
    ¬ Adds database talk answered (create talk new timestamps database).1 := by
  intro adds
  rcases adds with ⟨_, _, _, _, row, _, fresh, rows⟩
  obtain ⟨id, known⟩ := Option.ne_none_iff_exists'.mp identified
  have member : row ∈ (create talk new timestamps database).1.rows := (rows row).mpr (Or.inl rfl)
  rw [create, Talk.save, known] at member
  exact fresh ((database.mem_keys_replace _ row.id).mp (List.mem_map_of_mem member))

/-- The body of a creation brings no identifier. -/
def Request.Unidentified : Request → Prop
  | .create talk _ _ => talk.id = none
  | .index | .lookup _ | .remove _ => True

/-- The acknowledged changes lead from the initial table to the present one. -/
def Tracks (initial : Database) (service : Service) : Prop :=
  talkMap service.database = Change.replay (talkMap initial) service.acknowledged

/-- **What one request does**: without an identifier in a created talk, it keeps its
promise and the table follows the acknowledged changes. -/
theorem promised_of_unidentified {initial : Database} {before after : Service}
    {request : Request} (tracks : Tracks initial before) (unidentified : request.Unidentified)
    (step : service.step before request after) :
    Promised initial before request after ∧ Tracks initial after := by
  obtain ⟨fresh, answer, handled⟩ := step
  cases request with
  | index =>
      obtain ⟨rfl, rfl⟩ := Prod.mk.inj (Option.some.inj handled)
      refine ⟨fun response handled => ?_, tracks⟩
      obtain ⟨_, rfl⟩ := Prod.mk.inj (Option.some.inj handled)
      change Lists (index before.database) _
      rw [← tracks]
      exact lists_index before.database
  | create talk new timestamps =>
      have inserts := adds_create unidentified fresh timestamps
      have saved : create talk new timestamps before.database =
          (before.database.upsert (talk.row new timestamps), talk.row new timestamps) := by
        rw [create, Talk.save, show talk.id = none from unidentified]
      rw [Service.handle, saved] at handled
      rw [saved] at inserts
      obtain ⟨rfl, rfl⟩ := Prod.mk.inj (Option.some.inj handled)
      refine ⟨fun response handled => ?_, ?_⟩
      · rw [Service.handle, saved] at handled
        obtain ⟨_, rfl⟩ := Prod.mk.inj (Option.some.inj handled)
        exact inserts
      · rw [Tracks, talkMap_upsert, Change.replay_concat, tracks]
  | lookup id =>
      cases found : next id before.database with
      | none =>
          rw [Service.handle, found] at handled
          obtain ⟨rfl, _⟩ := Prod.mk.inj (Option.some.inj handled)
          exact ⟨fun _ _ => by trivial, tracks⟩
      | some row =>
          rw [Service.handle, found] at handled
          obtain ⟨rfl, _⟩ := Prod.mk.inj (Option.some.inj handled)
          exact ⟨fun _ _ => by trivial, tracks⟩
  | remove position =>
      obtain ⟨id, waiting, same⟩ := Option.map_eq_some_iff.mp handled
      obtain ⟨rfl, _⟩ := Prod.mk.inj same
      refine ⟨fun response handled => ?_, ?_⟩
      · obtain ⟨_, _, again⟩ := Option.map_eq_some_iff.mp handled
        obtain ⟨_, rfl⟩ := Prod.mk.inj again
        intro other reads
        obtain rfl : id = other := Option.some.inj (waiting.symm.trans reads)
        exact fun row => KeyedTable.mem_rows_erase
      · rw [Tracks, remove, talkMap_erase, Change.replay_concat, tracks]

/-- A request that keeps its promise brings no identifier. -/
theorem unidentified_of_promised {initial : Database} {before after : Service}
    {request : Request} (promised : Promised initial before request after)
    (step : service.step before request after) : request.Unidentified := by
  cases request with
  | index => trivial
  | lookup id => trivial
  | remove position => trivial
  | create talk new timestamps =>
      obtain ⟨_, answer, handled⟩ := step
      by_contra identified
      have adds := promised answer handled
      obtain ⟨rfl, rfl⟩ := Prod.mk.inj (Option.some.inj handled)
      exact not_adds_create identified new timestamps adds

theorem forall_unidentified {initial : Database} {before after : Service}
    {requests : List Request}
    (kept : (service.every (Promised initial)).Run before requests after) :
    ∀ request ∈ requests, request.Unidentified :=
  kept.forall_events Request.Unidentified fun _ _ _ step => unidentified_of_promised step.1 step.2

/-- **The controller refines a grow-and-delete map** exactly in the runs in which no
created talk brings an identifier. -/
theorem refines_iff {database : Database} {requests : List Request} {after : Service}
    (run : service.Run { database } requests after) :
    (service.every (Promised database)).Run { database } requests after ↔
      ∀ request ∈ requests, request.Unidentified :=
  ⟨forall_unidentified,
    run.every_of_invariant (Tracks database)
      (fun _ _ _ tracks unidentified step => promised_of_unidentified tracks unidentified step) rfl⟩

/-- A talk is created, found, listed and removed. -/
theorem refines_iff_unidentified :
    let requests : List Request := [.create { title := "Vapor" } (UUID.ofNat 1) {},
      .lookup (UUID.ofNat 1), .index, .remove 0]
    ∃ after, (service.every (Promised ⟨[], .nil⟩)).Run { database := ⟨[], .nil⟩ } requests after ∧
      index after.database = [] := by
  intro requests
  have run : service.Run { database := ⟨[], .nil⟩ } requests
      { database := ⟨[], .nil⟩
        acknowledged := [.put (UUID.ofNat 1)
          { id := some (UUID.ofNat 1), title := "Vapor" }, .drop (UUID.ofNat 1)] } :=
    .cons ⟨List.not_mem_nil, _, rfl⟩ (.cons ⟨trivial, _, rfl⟩ (.cons ⟨trivial, _, rfl⟩
      (.cons ⟨trivial, _, rfl⟩ (.nil _))))
  exact ⟨_, (refines_iff run).mpr (by simp [requests, Request.Unidentified]), rfl⟩

/-- **A talk with an identifier is acknowledged and not stored.** The answer carries
the talk, and the table stays empty. -/
theorem identified_not_promised :
    let body : Talk := { id := some (UUID.ofNat 1), title := "Vapor" }
    let request : Request := .create body (UUID.ofNat 2) {}
    ∃ after, service.Run { database := ⟨[], .nil⟩ } [request] after ∧
      Service.handle { database := ⟨[], .nil⟩ } request = some (after, some (.talk body)) ∧
      index after.database = [] ∧
      ¬ (service.every (Promised ⟨[], .nil⟩)).Run { database := ⟨[], .nil⟩ } [request] after := by
  intro body request
  refine ⟨_, .cons ⟨List.not_mem_nil, _, rfl⟩ (.nil _), rfl, rfl, fun kept => ?_⟩
  have unidentified := forall_unidentified kept request (List.mem_singleton_self _)
  exact absurd unidentified (by simp [request, body, Request.Unidentified])

end TalksController

end EventTalks.Server

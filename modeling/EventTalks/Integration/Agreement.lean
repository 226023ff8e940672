import EventTalks.Foundation.Journal
import EventTalks.Integration.Routing
import EventTalks.Integration.TalkTrip
import EventTalks.Server.Respond
import EventTalks.Services.Create
import EventTalks.Services.FetchAll

/-! # Device and server

The device fetches, creates and deletes talks through requests that the server answers
in any order and whose replies the device handles in any order. Seen through the
identifiers of its talks the exchange is a copy kept by snapshots and acknowledgements
(`EventTalks.Integration.step_replica`). A reply may be stale when it is handled, and
then device and server can end up different for good
(`EventTalks.Integration.not_agree_of_stale`); they agree once nothing is in flight when
the calls are served and handled in order from the last listing on that was handled
(`EventTalks.Integration.agree_of_inOrder`).
-/

namespace EventTalks.Integration

open Foundation Network Server TalksFetcher

/-- A call of the device that waits for its reply. -/
inductive Call where
  | fetchAll
  | create (title : String)
  | delete (id : UUID)

/-- The request that a call sends. -/
def Call.router : Call → Router
  | .fetchAll => .allTalks
  | .create title => .createTalk { title := some title }
  | .delete id => .deleteTalk id

/-- The stores of both sides and what is in flight between them. -/
structure Exchange where
  device : TalkStore
  server : Database
  requests : List Call := []
  replies : List (Call × Reply) := []

/-- What can happen: the user fetches, creates a talk or deletes one, the server serves
a request, the device handles a reply. -/
inductive Event where
  | fetchAll
  | create (title : String)
  | delete (identifier : String)
  | serve (index : Nat) (new : UUID) (timestamps : Timestamps)
  | handle (index : Nat) (initials : Nat → Talk.Initial)

/-- The completion of `fetchAll`. -/
def fetchAllCompletion (initials : Nat → Talk.Initial) (store : TalkStore) :
    Except (EventsError Empty) (List Response.Talk) → TalkStore
  | .ok talks => fetchAllSuccess initials store talks
  | .error _ => store

/-- What a reply does to the device, as the session delivers it without an error. -/
def handle (iso : ISO8601) (initials : Nat → Talk.Initial) (store : TalkStore)
    (call : Call) (reply : Reply) : Option TalkStore :=
  match call with
  | .fetchAll =>
      some ((taskCompletions (Json.decodeArray (Response.Talk.decode iso)) (some reply.data)
        (none : Option Empty)).foldl (fetchAllCompletion initials) store)
  | .create title =>
      createCompletions title initials store
        (taskCompletions (Response.Talk.decode iso) (some reply.data) (none : Option Empty))
  | .delete _ => some store

namespace Exchange

/-- The swipe on a talk: a request when its identifier is one, and the local removal. -/
def delete (exchange : Exchange) (identifier : String) : Exchange :=
  match UUID.ofString? identifier with
  | some id =>
      { exchange with
        device := exchange.device.remove identifier
        requests := exchange.requests ++ [.delete id] }
  | none => exchange

/-- The server serves a call. -/
def serve (iso : ISO8601) (exchange : Exchange) (index : Nat) (new : UUID)
    (timestamps : Timestamps) (call : Call) : Exchange :=
  let (server, reply) := respond iso new timestamps (call.router.asURLRequest iso) exchange.server
  { exchange with
    server
    requests := exchange.requests.eraseIdx index
    replies := exchange.replies ++ [(call, reply)] }

/-- What an event does. -/
def next (iso : ISO8601) (exchange : Exchange) : Event → Option Exchange
  | .fetchAll => some { exchange with requests := exchange.requests ++ [.fetchAll] }
  | .create title => some { exchange with requests := exchange.requests ++ [.create title] }
  | .delete identifier =>
      if identifier ∈ exchange.device.keys then some (exchange.delete identifier) else none
  | .serve index new timestamps =>
      exchange.requests[index]?.map (exchange.serve iso index new timestamps)
  | .handle index initials =>
      exchange.replies[index]?.bind fun (call, reply) =>
        (handle iso initials exchange.device call reply).map fun device =>
          { exchange with device, replies := exchange.replies.eraseIdx index }

end Exchange

/-- The identifier that the server makes up is not taken. -/
def Event.Unused (exchange : Exchange) : Event → Prop
  | .serve _ new _ => new ∉ exchange.server.keys
  | .fetchAll | .create _ | .delete _ | .handle _ _ => True

/-- Device and server under events in any order. -/
def exchange (iso : ISO8601) : System Exchange Event where
  step before event after := event.Unused before ∧ before.next iso event = some after

/-- The device holds the talks of the server. -/
def Agree (exchange : Exchange) : Prop :=
  ∀ identifier, identifier ∈ exchange.device.keys ↔
    ∃ id ∈ exchange.server.keys, id.uuidString = identifier

/-- The identifiers of a table, as text. -/
def names (database : Database) : Set String :=
  {identifier | ∃ id ∈ database.keys, id.uuidString = identifier}

/-- What a call asks of the set of identifiers. -/
def Call.request : Call → Replica.Request String
  | .fetchAll => .list
  | .create _ => .add
  | .delete id => .remove id.uuidString

/-- What a reply says about the set of identifiers. -/
def response (iso : ISO8601) (call : Call) (reply : Reply) : Replica.Response String :=
  match call with
  | .fetchAll =>
      match reply.data.decode (Json.decodeArray (Response.Talk.decode iso)) with
      | .ok talks => .listing {identifier | ∃ talk ∈ talks, talk.id = some identifier}
      | .error _ => .removed
  | .create _ =>
      match reply.data.decode (Response.Talk.decode iso) with
      | .ok talk => talk.id.elim .removed .added
      | .error _ => .removed
  | .delete _ => .removed

/-- The exchange, seen through identifiers. -/
def Exchange.replica (iso : ISO8601) (exchange : Exchange) : Replica String where
  copy := {identifier | identifier ∈ exchange.device.keys}
  origin := names exchange.server
  requests := exchange.requests.map Call.request
  responses := exchange.replies.map fun (call, reply) => response iso call reply

/-- An event, seen through identifiers. -/
def Event.replica : Event → Replica.Event String
  | .fetchAll => .list
  | .create _ => .add
  | .delete identifier => .drop identifier
  | .serve index new _ => .serve index new.uuidString
  | .handle index _ => .handle index

/-- A reply that the device can read: it decodes, and its talks have identifiers. -/
def Legible (iso : ISO8601) (call : Call) (reply : Reply) : Prop :=
  match call with
  | .fetchAll => ∃ talks,
      reply.data.decode (Json.decodeArray (Response.Talk.decode iso)) = .ok talks ∧
        ∀ talk ∈ talks, ∃ id : UUID, talk.id = some id.uuidString
  | .create _ => ∃ talk, ∃ id : UUID,
      reply.data.decode (Response.Talk.decode iso) = .ok talk ∧ talk.id = some id.uuidString
  | .delete _ => True

/-- A row that is erased takes its name away. -/
theorem mem_names_erase (database : Database) (id : UUID) :
    names (database.erase id) = names database \ {id.uuidString} := by
  ext identifier
  simp only [names, Set.mem_ofPred_eq, Set.mem_sdiff, Set.mem_singleton_iff,
    KeyedTable.mem_keys_erase]
  constructor
  · intro remaining
    rcases remaining with ⟨other, ⟨member, different⟩, rfl⟩
    exact ⟨⟨other, member, rfl⟩, fun same => different (UUID.uuidString_injective same)⟩
  · intro remaining
    rcases remaining with ⟨⟨other, member, rfl⟩, different⟩
    exact ⟨other, ⟨member, fun same => different (same ▸ rfl)⟩, rfl⟩

/-- A row that is put in brings its name. -/
theorem names_upsert (database : Database) (row : Row) :
    names (database.upsert row) = insert row.id.uuidString (names database) := by
  ext identifier
  simp only [names, Set.mem_ofPred_eq, Set.mem_insert_iff, KeyedTable.mem_keys_upsert]
  constructor
  · intro written
    rcases written with ⟨id, rfl | member, rfl⟩
    · exact Or.inl rfl
    · exact Or.inr ⟨id, member, rfl⟩
  · intro named
    rcases named with rfl | ⟨id, member, rfl⟩
    · exact ⟨row.id, Or.inl rfl, rfl⟩
    · exact ⟨id, Or.inr member, rfl⟩

/-- The device reads every talk that the server lists. -/
theorem decode_index (iso : ISO8601) (database : Database) :
    Data.decode (Json.decodeArray (Response.Talk.decode iso))
        (.json (.array ((TalksController.index database).map (Talk.encode iso)))) =
      .ok ((TalksController.index database).map sharedOf) :=
  Json.decodeItems_map _ fun talk _ => decode_encode iso talk

/-- The identifiers of the listed talks are those of the table. -/
theorem names_index (database : Database) :
    {identifier | ∃ talk ∈ (TalksController.index database).map sharedOf,
      talk.id = some identifier} = names database := by
  ext identifier
  simp only [TalksController.index, names, KeyedTable.keys, Set.mem_ofPred_eq, List.mem_map]
  constructor
  · intro listed
    rcases listed with ⟨_, ⟨_, ⟨row, member, rfl⟩, rfl⟩, named⟩
    refine ⟨row.id, ⟨row, member, rfl⟩, ?_⟩
    simpa [sharedOf, row.id_eq] using named
  · intro stored
    rcases stored with ⟨_, ⟨row, member, rfl⟩, rfl⟩
    exact ⟨_, ⟨_, ⟨row, member, rfl⟩, rfl⟩, by simp [sharedOf, row.id_eq]⟩

section Serving

variable (iso : ISO8601) (new : UUID) (timestamps : Timestamps) (database : Database)

/-- A fetch is answered with all rows, and changes nothing. -/
theorem respond_fetchAll :
    respond iso new timestamps (Call.fetchAll.router.asURLRequest iso) database =
      (database, .content (.array ((TalksController.index database).map (Talk.encode iso)))) := by
  rw [respond, Router.asURLRequest_httpMethod, Router.path_asURLRequest, dispatch_boot]
  rfl

/-- A creation puts in a row of the new identifier, and is answered with it. -/
theorem respond_create (title : String) :
    ∃ row : Row, row.id = new ∧
      respond iso new timestamps ((Call.create title).router.asURLRequest iso) database =
        (database.upsert row, .content (row.talk.encode iso)) := by
  refine ⟨Talk.row { title := title } new timestamps, rfl, ?_⟩
  rw [respond, Router.asURLRequest_httpMethod, Router.path_asURLRequest, dispatch_boot,
    Router.asURLRequest_httpBody]
  simp only [Call.router, meaning, Router.body, Option.map_some]
  rw [decode_createTalk iso { title := some title } rfl]
  rfl

/-- A deletion takes the row away. -/
theorem respond_delete (id : UUID) :
    ∃ reply,
      respond iso new timestamps ((Call.delete id).router.asURLRequest iso) database =
        (database.erase id, reply) := by
  rw [respond, Router.asURLRequest_httpMethod, Router.path_asURLRequest, dispatch_boot]
  simp only [Call.router, meaning, identifiers, List.map_cons, List.map_nil,
    UUID.ofString?_uuidString]
  cases found : TalksController.next id database with
  | some row =>
      obtain rfl := (KeyedTable.get?_eq_some.mp found).2
      exact ⟨_, rfl⟩
  | none => exact ⟨_, by rw [database.erase_of_not_mem (KeyedTable.get?_eq_none.mp found)]⟩

/-- **Serving a call** does to the identifiers what the call asks, and the reply can be
read and says so. -/
theorem respond_spec (call : Call) {server : Database} {reply : Reply}
    (served : respond iso new timestamps (call.router.asURLRequest iso) database =
      (server, reply)) :
    names server = call.request.serve (names database) new.uuidString ∧
      response iso call reply = call.request.answer (names database) new.uuidString ∧
      Legible iso call reply := by
  cases call with
  | fetchAll =>
      rw [respond_fetchAll] at served
      obtain ⟨rfl, rfl⟩ := Prod.mk.inj served
      have decoded := decode_index iso database
      refine ⟨rfl, ?_, _, decoded, fun talk member => ?_⟩
      · simp only [response, Reply.content, decoded, names_index]
        rfl
      · obtain ⟨_, inside, rfl⟩ := List.mem_map.mp member
        obtain ⟨row, _, rfl⟩ := List.mem_map.mp inside
        exact ⟨row.id, by simp [sharedOf, row.id_eq]⟩
  | create title =>
      obtain ⟨row, rfl, created⟩ := respond_create iso new timestamps database title
      rw [created] at served
      obtain ⟨rfl, rfl⟩ := Prod.mk.inj served
      have decoded : (Reply.content (row.talk.encode iso)).data.decode
          (Response.Talk.decode iso) = .ok (sharedOf row.talk) := decode_encode iso row.talk
      have named : (sharedOf row.talk).id = some row.id.uuidString := by
        simp [sharedOf, row.id_eq]
      refine ⟨names_upsert database row, ?_, _, _, decoded, named⟩
      simp only [response, decoded, named]
      rfl
  | delete id =>
      obtain ⟨answer, removed⟩ := respond_delete iso new timestamps database id
      rw [removed] at served
      obtain ⟨rfl, rfl⟩ := Prod.mk.inj served
      exact ⟨mem_names_erase database id, rfl, trivial⟩

end Serving

/-- **Handling a legible reply** does to the device's identifiers what the reply says,
and every new identifier is the text of one. -/
theorem handle_spec {iso : ISO8601} {initials : Nat → Talk.Initial} {store device : TalkStore}
    {call : Call} {reply : Reply} (legible : Legible iso call reply)
    (handled : handle iso initials store call reply = some device) :
    {identifier | identifier ∈ device.keys} =
        (response iso call reply).handle {identifier | identifier ∈ store.keys} ∧
      ∀ identifier ∈ device.keys, identifier ∈ store.keys ∨
        ∃ id : UUID, id.uuidString = identifier := by
  cases call with
  | fetchAll =>
      obtain ⟨talks, decoded, identified⟩ := legible
      obtain rfl : fetchAllSuccess initials store talks = device := by
        simpa [handle, taskCompletions, reportCompletions, decoded, fetchAllCompletion]
          using handled
      have keys := mem_keys_fetchAllSuccess_of_identified initials store fun talk member => by
        obtain ⟨id, named⟩ := identified talk member
        rw [named]
        rfl
      refine ⟨?_, fun identifier member => ?_⟩
      · simp only [response, decoded, keys]
        rfl
      · obtain ⟨talk, inside, named⟩ := (keys identifier).mp member
        obtain ⟨id, known⟩ := identified talk inside
        exact Or.inr ⟨id, Option.some.inj (known.symm.trans named)⟩
  | create title =>
      obtain ⟨talk, id, decoded, named⟩ := legible
      obtain rfl : store.upsert (Talk.fromShared (initials 0) talk) = device := by
        simpa [handle, taskCompletions, reportCompletions, decoded, createCompletions,
          createCompletion] using handled
      refine ⟨?_, fun identifier member => ?_⟩
      · ext identifier
        simp [response, decoded, named, Replica.Response.handle, KeyedTable.mem_keys_upsert]
      · rw [KeyedTable.mem_keys_upsert, Talk.fromShared_identifier, named] at member
        exact member.symm.imp_right fun same => ⟨id, same.symm⟩
  | delete id =>
      obtain rfl := Option.some.inj handled
      exact ⟨rfl, fun _ => Or.inl⟩

/-- Every identifier on the device is the text of one, and every reply in flight can be
read. -/
structure WellFormed (iso : ISO8601) (exchange : Exchange) : Prop where
  named : ∀ identifier ∈ exchange.device.keys, ∃ id : UUID, id.uuidString = identifier
  legible : ∀ answer ∈ exchange.replies, Legible iso answer.1 answer.2

section Stepping

variable {iso : ISO8601} {before after : Exchange}

/-- The step of the replica that a step of the exchange is. -/
def Replicates (iso : ISO8601) (before : Exchange) (event : Event) (after : Exchange) : Prop :=
  Replica.system.step (before.replica iso) event.replica (after.replica iso) ∧
    WellFormed iso after

/-- A deletion on the device is a step of the copy. -/
theorem WellFormed.delete (wellFormed : WellFormed iso before) {identifier : String}
    (present : identifier ∈ before.device.keys) :
    Replicates iso before (.delete identifier) (before.delete identifier) := by
  obtain ⟨id, rfl⟩ := wellFormed.named identifier present
  have seen : Exchange.replica iso (before.delete id.uuidString) =
      { before.replica iso with
        copy := (before.replica iso).copy \ {id.uuidString}
        requests := (before.replica iso).requests ++ [.remove id.uuidString] } := by
    simp only [Exchange.replica, Exchange.delete, UUID.ofString?_uuidString,
      KeyedTable.mem_keys_remove, List.map_append]
    rfl
  refine ⟨seen ▸ Replica.Step.drop present, ?_, ?_⟩
  · rw [Exchange.delete, UUID.ofString?_uuidString]
    exact fun identifier member => wellFormed.named identifier
      ((before.device.mem_keys_remove _ _).mp member).1
  · rw [Exchange.delete, UUID.ofString?_uuidString]
    exact wellFormed.legible

/-- A request that is served is a step of the origin. -/
theorem WellFormed.serve (wellFormed : WellFormed iso before) {index : Nat} {new : UUID}
    {timestamps : Timestamps} {call : Call} (unused : new ∉ before.server.keys)
    (pending : before.requests[index]? = some call) :
    Replicates iso before (.serve index new timestamps)
      (before.serve iso index new timestamps call) := by
  obtain ⟨server, reply, served⟩ : ∃ server reply, respond iso new timestamps
      (call.router.asURLRequest iso) before.server = (server, reply) := ⟨_, _, rfl⟩
  obtain ⟨origin, answered, legible⟩ :=
    respond_spec iso new timestamps before.server call served
  rw [Exchange.serve, served]
  have seen : Exchange.replica iso
      { before with
        server
        requests := before.requests.eraseIdx index
        replies := before.replies ++ [(call, reply)] } =
      { before.replica iso with
        origin := call.request.serve (names before.server) new.uuidString
        requests := (before.replica iso).requests.eraseIdx index
        responses := (before.replica iso).responses ++
          [call.request.answer (names before.server) new.uuidString] } := by
    simp only [Exchange.replica, origin, answered, List.eraseIdx_map, List.map_append,
      List.map_cons, List.map_nil]
  refine ⟨seen ▸ Replica.Step.serve ?_ ?_, wellFormed.named, ?_⟩
  · simp [Exchange.replica, pending]
  · rintro _ ⟨id, member, same⟩
    exact unused (UUID.uuidString_injective same ▸ member)
  · intro answer member
    rcases List.mem_append.mp member with earlier | last
    · exact wellFormed.legible answer earlier
    · rw [List.mem_singleton.mp last]
      exact legible

/-- A reply that is handled is a step of the copy. -/
theorem WellFormed.handle (wellFormed : WellFormed iso before) {index : Nat}
    {initials : Nat → Talk.Initial} {call : Call} {reply : Reply} {device : TalkStore}
    (arrived : before.replies[index]? = some (call, reply))
    (handled : Integration.handle iso initials before.device call reply = some device) :
    Replicates iso before (.handle index initials)
      { before with device, replies := before.replies.eraseIdx index } := by
  have legible := wellFormed.legible _ (List.mem_of_getElem? arrived)
  obtain ⟨copied, named⟩ := handle_spec legible handled
  have seen : Exchange.replica iso
      { before with device, replies := before.replies.eraseIdx index } =
      { before.replica iso with
        copy := (response iso call reply).handle (before.replica iso).copy
        responses := (before.replica iso).responses.eraseIdx index } := by
    simp only [Exchange.replica, copied, List.eraseIdx_map]
  refine ⟨seen ▸ Replica.Step.handle ?_, ?_, ?_⟩
  · simp [Exchange.replica, arrived]
  · exact fun identifier member =>
      (named identifier member).elim (wellFormed.named identifier) id
  · exact fun answer member => wellFormed.legible answer (List.mem_of_mem_eraseIdx member)

/-- **The exchange is a copy kept by snapshots and acknowledgements**, step by step. -/
theorem step_replica {event : Event} (wellFormed : WellFormed iso before)
    (step : (exchange iso).step before event after) : Replicates iso before event after := by
  obtain ⟨unused, stepped⟩ := step
  cases event with
  | fetchAll =>
      obtain rfl := Option.some.inj stepped
      have seen : Exchange.replica iso { before with requests := before.requests ++ [.fetchAll] } =
          { before.replica iso with
            requests := (before.replica iso).requests ++ [.list] } := by
        simp [Exchange.replica, Call.request]
      exact ⟨seen ▸ Replica.Step.list _, wellFormed.named, wellFormed.legible⟩
  | create title =>
      obtain rfl := Option.some.inj stepped
      have seen : Exchange.replica iso
          { before with requests := before.requests ++ [.create title] } =
          { before.replica iso with
            requests := (before.replica iso).requests ++ [.add] } := by
        simp [Exchange.replica, Call.request]
      exact ⟨seen ▸ Replica.Step.add _, wellFormed.named, wellFormed.legible⟩
  | delete identifier =>
      rw [Exchange.next] at stepped
      split at stepped
      · rename_i present
        obtain rfl := Option.some.inj stepped
        exact wellFormed.delete present
      · cases stepped
  | serve index new timestamps =>
      obtain ⟨call, pending, rfl⟩ := Option.map_eq_some_iff.mp stepped
      exact wellFormed.serve unused pending
  | handle index initials =>
      obtain ⟨⟨call, reply⟩, arrived, handled⟩ := Option.bind_eq_some_iff.mp stepped
      obtain ⟨device, run, rfl⟩ := Option.map_eq_some_iff.mp handled
      exact wellFormed.handle arrived run

end Stepping

/-- What a list of events does to the calls, in its order. -/
def history (events : List Event) : List (Replica.Entry String) :=
  Replica.history (events.map Event.replica)

/-- **Device and server agree at quiescence** when the calls are in order: the last listing that
is handled was served after every deletion called before, and no creation served after it was
handled before it; and no creation that is handled later comes after a deletion of its talk. -/
theorem agree_of_inOrder (iso : ISO8601) {before after : Exchange} {events : List Event}
    (run : (exchange iso).Run before events after)
    (begun : before.requests = [] ∧ before.replies = []) (same : Agree before)
    (order : Replica.InOrder (history events))
    (settled : after.requests = [] ∧ after.replies = []) : Agree after := by
  have wellFormed : WellFormed iso before :=
    ⟨fun identifier member => ((same identifier).mp member).imp fun _ => And.right,
      by simp [begun.2]⟩
  have simulated : Replica.system.Run (before.replica iso) (events.map Event.replica)
      (after.replica iso) :=
    run.simulates (WellFormed iso) (fun _ _ _ wellFormed step => step_replica wellFormed step)
      wellFormed
  have coupled : Replica.Coupled (before.replica iso) := by
    refine ⟨fun name member => ⟨(same name).mp member, ?_⟩, fun name member absent => ?_⟩
    · simp [Exchange.replica, begun.1]
    · exact absurd ((same name).mpr member) absent
  have agreed := Replica.copy_eq_of_inOrder simulated coupled
    ⟨by simp [Exchange.replica, begun.1], by simp [Exchange.replica, begun.2]⟩ order
    ⟨by simp [Exchange.replica, settled.1], by simp [Exchange.replica, settled.2]⟩
  exact fun identifier => Set.ext_iff.mp agreed identifier

/-- Both stores empty, nothing in flight. -/
def Exchange.empty : Exchange where
  device := ⟨[], .nil⟩
  server := ⟨[], .nil⟩

/-- Empty stores agree. -/
theorem Exchange.agree_empty : Agree Exchange.empty := by
  intro identifier
  simp [Exchange.empty, KeyedTable.keys]

/-- A listing that is out of date makes the device forget a created talk, and a later one that
was served since brings it back. -/
theorem agree_of_inOrder_repaired :
    ∃ after, (exchange ISO8601.gregorian).Run Exchange.empty
        [.fetchAll, .serve 0 (UUID.ofNat 0) {}, .create "Vapor", .serve 0 (UUID.ofNat 1) {},
          .handle 1 numbered, .handle 0 numbered, .fetchAll, .serve 0 (UUID.ofNat 2) {},
          .handle 0 numbered] after ∧
      after.server.keys = [UUID.ofNat 1] ∧ Agree after := by
  have order : Replica.InOrder (history [.fetchAll, .serve 0 (UUID.ofNat 0) {}, .create "Vapor",
      .serve 0 (UUID.ofNat 1) {}, .handle 1 numbered, .handle 0 numbered, .fetchAll,
      .serve 0 (UUID.ofNat 2) {}, .handle 0 numbered]) := by
    apply (@Replica.inOrder_append_listing _
      [.called 0 .list, .served 0 .list _, .called 1 .add, .served 1 .add _, .handled 1 .add _,
        .handled 0 .list _, .called 2 .list, .served 2 .list _] 2 _).mpr
    refine ⟨fun call name member => by simp at member, fun call name follow => ?_⟩
    have before := @Replica.sublist_of_append _
      [.called 0 .list, .served 0 .list _, .called 1 .add, .served 1 .add _, .handled 1 .add _,
        .handled 0 .list _, .called 2 .list] _ _ _ follow nofun
    exact absurd (before.subset (List.mem_cons_self ..)) (by simp)
  have unused : UUID.ofNat 2 ∉ [UUID.ofNat 1] := by decide
  obtain ⟨after, run, settled, stored⟩ : ∃ after, (exchange ISO8601.gregorian).Run Exchange.empty
      [.fetchAll, .serve 0 (UUID.ofNat 0) {}, .create "Vapor", .serve 0 (UUID.ofNat 1) {},
        .handle 1 numbered, .handle 0 numbered, .fetchAll, .serve 0 (UUID.ofNat 2) {},
        .handle 0 numbered] after ∧
      (after.requests = [] ∧ after.replies = []) ∧ after.server.keys = [UUID.ofNat 1] :=
    ⟨_, .cons ⟨trivial, rfl⟩ (.cons ⟨List.not_mem_nil, rfl⟩ (.cons ⟨trivial, rfl⟩
      (.cons ⟨List.not_mem_nil, rfl⟩ (.cons ⟨trivial, rfl⟩ (.cons ⟨trivial, rfl⟩
        (.cons ⟨trivial, rfl⟩ (.cons ⟨unused, rfl⟩ (.cons ⟨trivial, rfl⟩ (.nil _))))))))),
      ⟨rfl, rfl⟩, rfl⟩
  exact ⟨after, run, stored, agree_of_inOrder _ run ⟨rfl, rfl⟩ Exchange.agree_empty order settled⟩

/-- **A stale listing loses a created talk.** The server lists its talks, creates one,
and the device handles the second reply before the first: nothing is in flight, the
server has the talk and the device does not. -/
theorem not_agree_of_stale :
    Agree Exchange.empty ∧
      ∃ after, (exchange ISO8601.gregorian).Run Exchange.empty
          [.fetchAll, .serve 0 (UUID.ofNat 0) {}, .create "Vapor", .serve 0 (UUID.ofNat 1) {},
            .handle 1 numbered, .handle 0 numbered] after ∧
        after.requests = [] ∧ after.replies = [] ∧
        after.device.keys = [] ∧ after.server.keys = [UUID.ofNat 1] ∧ ¬ Agree after := by
  refine ⟨Exchange.agree_empty, _, .cons ⟨trivial, rfl⟩ (.cons ⟨List.not_mem_nil, rfl⟩
    (.cons ⟨trivial, rfl⟩ (.cons ⟨List.not_mem_nil, rfl⟩ (.cons ⟨trivial, rfl⟩
      (.cons ⟨trivial, rfl⟩ (.nil _)))))), rfl, rfl, rfl, rfl, fun agreed => ?_⟩
  exact List.not_mem_nil ((agreed (UUID.ofNat 1).uuidString).mpr
    ⟨_, List.mem_singleton_self _, rfl⟩)

end EventTalks.Integration

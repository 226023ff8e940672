import EventTalks.Integration.Agreement
import EventTalks.Integration.Device

/-! # The listing agrees with the server

The device, with the notifier of its listing, and the server with what is in flight between
them: a call sends a request, the server serves it, and when its reply arrives the completion
writes in the background. Seen through the identifiers of the talks this is the copy that is
kept by snapshots and acknowledgements, in which whatever happens to the notifier and on the
screens does nothing (`EventTalks.World.Step.replicates`). When the calls are in order from the
last listing on that was handled, and nothing is in flight, the listing agrees with the server
as soon as its notifier has run and its realm is told so (`EventTalks.World.listing_agrees`).
-/

namespace EventTalks

open Foundation Network Server Realm LiveListing Integration TalksFetcher

/-- The device, the server, and what is in flight between them. -/
structure World where
  device : Device
  server : Database
  requests : List Call := []
  replies : List (Call × Reply) := []

namespace World

/-- What can happen: the user fetches, creates a talk or deletes one, the server serves a
request, the device handles a reply, or something happens on the device. -/
inductive Event where
  | fetchAll
  | create (title : String)
  | delete (identifier : String) (isVisible : Bool)
  | serve (index : Nat) (new : UUID) (timestamps : Timestamps)
  | handle (index : Nat) (initials : Nat → Talk.Initial) (isVisible : Bool)
  | device (event : Device.Event)

/-- What the completion of `fetchAll` writes. -/
def fetchAllWrite (initials : Nat → Talk.Initial) :
    Except (EventsError Empty) (List Response.Talk) → Option Write
  | .ok talks => some (.fetchAll initials talks)
  | .error _ => none

/-- What the completion of `create(title:)` writes. -/
def createWrite (title : String) (initial : Talk.Initial) :
    Except (EventsError Empty) Response.Talk → Write
  | .ok talk => .add (Talk.fromShared initial talk)
  | .error _ => .addNamed initial title

/-- What the completion of a call writes when the reply arrives, as the session delivers it
without an error. -/
def completionWrites (iso : ISO8601) (initials : Nat → Talk.Initial) (call : Call)
    (reply : Reply) : List Write :=
  match call with
  | .fetchAll =>
      (taskCompletions (Json.decodeArray (Response.Talk.decode iso)) (some reply.data)
        none).filterMap (fetchAllWrite initials)
  | .create title =>
      (taskCompletions (Response.Talk.decode iso) (some reply.data) none).mapIdx
        fun index result => createWrite title (initials index) result
  | .delete _ => []

/-- Writes are committed in the background, one after the other. -/
inductive Writes (empty : Talk) (isVisible : Bool) : Device → List Write → Device → Prop
  | nil (device : Device) : Writes empty isVisible device [] device
  | cons {before middle after : Device} {write : Write} {writes : List Write}
      (responded : before.respond empty (.background write) isVisible = some (.ok middle))
      (rest : Writes empty isVisible middle writes after) :
      Writes empty isVisible before (write :: writes) after

/-- What happens on the device by itself: nothing is written but what the user edits. -/
def Alone : Device.Event → Prop
  | .data happening _ => ∀ write, happening.write? = some write →
      ∃ identifier property value, write = .set identifier property value
  | .listing _ => True

/-- The device and the server under events in any order. A talk that is deleted is still there,
and has an identifier that requests can be about. -/
inductive Step (iso : ISO8601) (empty : Talk) (before : World) : Event → World → Prop
  | fetchAll :
      Step iso empty before .fetchAll { before with requests := before.requests ++ [.fetchAll] }
  | create (title : String) :
      Step iso empty before (.create title)
        { before with requests := before.requests ++ [.create title] }
  | delete {talk : Talk} {id : UUID} {isVisible : Bool} {device : Device}
      (present : talk ∈ before.device.latest.rows)
      (named : UUID.ofString? talk.identifier = some id)
      (responded : before.device.respond empty (.write (.delete talk)) isVisible =
        some (.ok device)) :
      Step iso empty before (.delete talk.identifier isVisible)
        { before with device, requests := before.requests ++ [.delete id] }
  | serve {index : Nat} {new : UUID} {timestamps : Timestamps} {call : Call} {server : Database}
      {reply : Reply} (unused : new ∉ before.server.keys)
      (pending : before.requests[index]? = some call)
      (served : respond iso new timestamps (call.router.asURLRequest iso) before.server =
        (server, reply)) :
      Step iso empty before (.serve index new timestamps)
        { before with
          server
          requests := before.requests.eraseIdx index
          replies := before.replies ++ [(call, reply)] }
  | handle {index : Nat} {initials : Nat → Talk.Initial} {isVisible : Bool} {call : Call}
      {reply : Reply} {device : Device} (arrived : before.replies[index]? = some (call, reply))
      (written : Writes empty isVisible before.device (completionWrites iso initials call reply)
        device) :
      Step iso empty before (.handle index initials isVisible)
        { before with device, replies := before.replies.eraseIdx index }
  | device {event : Device.Event} {device : Device} (alone : Alone event)
      (stepped : Device.Step empty before.device event device) :
      Step iso empty before (.device event) { before with device }

def system (iso : ISO8601) (empty : Talk) : System World Event where
  step := Step iso empty

/-- The listing has loaded and nothing is in flight. -/
def start (store : TalkStore) (server : Database) : World := { device := .start store, server }

/-- The world, without the notifier and the screen of the device. -/
def exchange (world : World) : Exchange :=
  ⟨world.device.latest, world.server, world.requests, world.replies⟩

/-- An event, seen through identifiers. -/
def Event.replica? : Event → Option (Replica.Event String)
  | .fetchAll => some .list
  | .create _ => some .add
  | .delete identifier _ => some (.drop identifier)
  | .serve index new _ => some (.serve index new.uuidString)
  | .handle index _ _ => some (.handle index)
  | .device _ => none

/-- What a list of events does to the calls, in its order. -/
def history (events : List Event) : List (Replica.Entry String) :=
  Replica.history (events.filterMap Event.replica?)

/-! ## Handling a reply -/

section Handling

variable {iso : ISO8601} {empty : Talk} {isVisible : Bool} {before after : Device}
  {writes : List Write}

/-- Writes performed on a store, one after the other. -/
def performAll (store : TalkStore) (writes : List Write) : Option TalkStore :=
  writes.foldlM (fun store write => write.perform store) store

theorem performAll_cons (store : TalkStore) (write : Write) (writes : List Write) :
    performAll store (write :: writes) =
      (write.perform store).bind fun store => performAll store writes := by
  rw [performAll, List.foldlM_cons]
  rfl

/-- **Writes on the device** do to the latest store what they do to a store. -/
theorem Writes.sound (written : Writes empty isVisible before writes after)
    (sound : before.Sound empty) :
    after.Sound empty ∧ performAll before.latest writes = some after.latest := by
  induction written with
  | nil device => exact ⟨sound, rfl⟩
  | cons responded rest ih =>
      obtain ⟨sound', performed⟩ := ih (sound.step (.data responded))
      refine ⟨sound', ?_⟩
      rw [performAll_cons, sound.latest responded, Option.bind_some, performed]

theorem performAll_fetchAll (initials : Nat → Talk.Initial) (store : TalkStore)
    (results : List (Except (EventsError Empty) (List Response.Talk))) :
    performAll store (results.filterMap (fetchAllWrite initials)) =
      some (results.foldl (fetchAllCompletion initials) store) := by
  induction results generalizing store with
  | nil => rfl
  | cons result results ih =>
      cases result with
      | ok talks => exact ih (fetchAllSuccess initials store talks)
      | error underlying => exact ih store

theorem performAll_create (title : String) (initials : Nat → Talk.Initial) (store : TalkStore)
    (results : List (Except (EventsError Empty) Response.Talk)) :
    performAll store (results.mapIdx fun index result =>
      createWrite title (initials index) result) =
      createCompletions title initials store results := by
  induction results generalizing store initials with
  | nil => rfl
  | cons result results ih =>
      have first : (createWrite title (initials 0) result).perform store =
          createCompletion title (initials 0) store result := by
        cases result with
        | ok talk | error underlying => rfl
      rw [List.mapIdx_cons, performAll_cons, first, createCompletions]
      exact congrArg _ (funext fun store => ih (fun index => initials (index + 1)) store)

/-- **What the completion of a call writes** is what handling its reply does to the store. -/
theorem performAll_completionWrites (initials : Nat → Talk.Initial) (store : TalkStore)
    (call : Call) (reply : Reply) :
    performAll store (completionWrites iso initials call reply) =
      handle iso initials store call reply := by
  cases call with
  | fetchAll => exact performAll_fetchAll initials store _
  | create title => exact performAll_create title initials store _
  | delete id => rfl

end Handling

/-! ## The world, seen through identifiers -/

/-- The device keeps its listing and its data together, and the exchange can be read. -/
structure WellFormed (iso : ISO8601) (empty : Talk) (world : World) : Prop where
  device : world.device.Sound empty
  exchange : Integration.WellFormed iso world.exchange

section Seen

variable {iso : ISO8601} {empty : Talk} {before after : World}

/-- What happens on the device by itself leaves the identifiers as they are. -/
theorem mem_keys_of_alone {event : Device.Event} {device next : Device} (alone : Alone event)
    (sound : device.Sound empty) (stepped : Device.Step empty device event next)
    (identifier : String) : identifier ∈ next.latest.keys ↔ identifier ∈ device.latest.keys := by
  cases stepped with
  | listing => exact Iff.rfl
  | @data happening isVisible next responded =>
      have latest := sound.latest responded
      cases written : happening.write? with
      | none =>
          rw [written] at latest
          rw [latest]
      | some write =>
          obtain ⟨name, property, value, rfl⟩ := alone write written
          rw [written] at latest
          obtain ⟨talk, stored, same⟩ := Option.map_eq_some_iff.mp latest
          rw [← same, KeyedTable.mem_keys_upsert, Property.identifier_assign]
          refine or_iff_right_of_imp fun key => ?_
          exact key ▸ List.mem_map_of_mem (KeyedTable.get?_eq_some.mp stored).1

theorem alone_of_none {happening : Device.Happening} {isVisible : Bool}
    (unwritten : happening.write? = none) : Alone (.data happening isVisible) := by
  intro write written
  rw [unwritten] at written
  cases written

/-- A step of the exchange is one of the copy. -/
theorem WellFormed.replicates {event : Integration.Event} (wellFormed : WellFormed iso empty before)
    (sound : after.device.Sound empty)
    (step : (Integration.exchange iso).step before.exchange event after.exchange) :
    Replica.system.step (before.exchange.replica iso) event.replica (after.exchange.replica iso) ∧
      WellFormed iso empty after := by
  obtain ⟨seen, exchange⟩ := step_replica wellFormed.exchange step
  exact ⟨seen, sound, exchange⟩

/-- **Every step is one of the copy**, or none. -/
theorem Step.replicates {event : Event} (step : Step iso empty before event after)
    (wellFormed : WellFormed iso empty before) :
    (match event.replica? with
      | some seen =>
          Replica.system.step (before.exchange.replica iso) seen (after.exchange.replica iso)
      | none => after.exchange.replica iso = before.exchange.replica iso) ∧
      WellFormed iso empty after := by
  have device := wellFormed.device
  cases step with
  | fetchAll => exact @WellFormed.replicates _ _ _ _ .fetchAll wellFormed device ⟨trivial, rfl⟩
  | create title =>
      exact @WellFormed.replicates _ _ _ _ (.create title) wellFormed device ⟨trivial, rfl⟩
  | @delete talk id isVisible next present named responded =>
      have removed : before.device.latest.remove talk.identifier = next.latest :=
        Option.some.inj (device.latest responded)
      have listed : talk.identifier ∈ before.exchange.device.keys := List.mem_map_of_mem present
      refine @WellFormed.replicates _ _ _ _ (.delete talk.identifier) wellFormed
        (device.step (.data responded)) ⟨trivial, ?_⟩
      rw [Exchange.next, if_pos listed, Exchange.delete, named]
      exact congrArg (fun device => some (⟨device, before.server, before.requests ++ [.delete id],
        before.replies⟩ : Exchange)) removed
  | @serve index new timestamps call server reply unused pending served =>
      refine @WellFormed.replicates _ _ _ _ (.serve index new timestamps) wellFormed device
        ⟨unused, ?_⟩
      have waiting : before.exchange.requests[index]? = some call := pending
      have answered : respond iso new timestamps (call.router.asURLRequest iso)
          before.exchange.server = (server, reply) := served
      rw [Exchange.next, waiting, Option.map_some, Exchange.serve, answered]
      rfl
  | @handle index initials isVisible call reply next arrived written =>
      obtain ⟨sound, performed⟩ := written.sound device
      rw [performAll_completionWrites] at performed
      refine @WellFormed.replicates _ _ _ _ (.handle index initials) wellFormed sound
        ⟨trivial, ?_⟩
      have here : before.exchange.replies[index]? = some (call, reply) := arrived
      have handled : Integration.handle iso initials before.exchange.device call reply =
          some next.latest := performed
      rw [Exchange.next, here, Option.bind_some]
      dsimp only
      rw [handled]
      rfl
  | @device event next alone stepped =>
      have keys := mem_keys_of_alone alone device stepped
      refine ⟨?_, device.step stepped, fun identifier member => ?_, wellFormed.exchange.legible⟩
      · rw [Exchange.replica, Exchange.replica, exchange, exchange, Replica.mk.injEq]
        exact ⟨Set.ext keys, rfl, rfl, rfl⟩
      · exact wellFormed.exchange.named identifier ((keys identifier).mp member)

/-- A run is one of the copy. -/
theorem replicates_of_run {events : List Event} (run : (system iso empty).Run before events after)
    (wellFormed : WellFormed iso empty before) :
    Replica.system.Run (before.exchange.replica iso) (events.filterMap Event.replica?)
      (after.exchange.replica iso) := by
  apply run.simulates_some (WellFormed iso empty) _ wellFormed
  intro state event next wellFormed step
  obtain ⟨taken, kept⟩ := step.replicates wellFormed
  refine ⟨?_, kept⟩
  cases seen : event.replica? with
  | none =>
      rw [seen] at taken
      exact taken
  | some event' =>
      rw [seen] at taken
      exact taken

/-- The device stays well formed in every run. -/
theorem WellFormed.of_run {events : List Event} (run : (system iso empty).Run before events after)
    (wellFormed : WellFormed iso empty before) : WellFormed iso empty after :=
  run.preserves (WellFormed iso empty) (fun _ _ _ kept step => (step.replicates kept).2) wellFormed

/-- The stores agree when the listing has loaded and nothing is in flight. -/
theorem wellFormed_start {store : TalkStore} {server : Database}
    (same : Agree (start store server).exchange) : WellFormed iso empty (start store server) where
  device := Device.sound_start empty store
  exchange := ⟨fun identifier member => ((same identifier).mp member).imp fun _ => And.right, nofun⟩

/-- **The listing agrees with the server.** The stores of device and server agree at first. Along
every run whose calls are in order, and whatever happens to the notifier, the realm and the
screens in between: when nothing is in flight, the notifier has run over what is pending and the
realm is told so, then the listing knows one talk for each talk of the server and no other. -/
theorem listing_agrees {store : TalkStore} {server : Database} {events : List Event}
    (run : (system iso empty).Run (start store server) events after)
    (same : Agree (start store server).exchange) (order : Replica.InOrder (history events))
    (settled : after.requests = [] ∧ after.replies = []) (isVisible : Bool) :
    ∃ seen shown ids,
      after.device.respond empty (.run after.device.listing.coordinator.pending.length) isVisible =
        some (.ok seen) ∧
      seen.respond empty .notify isVisible = some (.ok shown) ∧
      shown.listing.screen.observed = some ids ∧ ids.Nodup ∧
      ∀ identifier, identifier ∈ ids ↔ ∃ id ∈ after.server.keys, id.uuidString = identifier := by
  have wellFormed : WellFormed iso empty (start store server) := wellFormed_start same
  have coupled : Replica.Coupled ((start store server).exchange.replica iso) :=
    ⟨fun name member => ⟨(same name).mp member, nofun⟩,
      fun name member absent => absurd ((same name).mpr member) absent⟩
  have agreed := Replica.copy_eq_of_inOrder (replicates_of_run run wellFormed) coupled ⟨rfl, rfl⟩
    order ⟨List.map_eq_nil_iff.mpr settled.1, List.map_eq_nil_iff.mpr settled.2⟩
  obtain ⟨seen, shown, ran, notified, _, observed⟩ :=
    (wellFormed.of_run run).device.catchesUp isVisible
  refine ⟨seen, shown, _, ran, notified, observed, ?_, fun identifier => ?_⟩
  · exact (Query.byDateCreated.identifiers_perm _).nodup_iff.mpr after.device.latest.unique
  · rw [(Query.byDateCreated.identifiers_perm _).mem_iff]
    exact Set.ext_iff.mp agreed identifier

/-- A talk is created, and the listing knows it. -/
theorem listing_agrees_created :
    ∃ after seen shown ids,
      (system ISO8601.gregorian (Listing.talkAt 0)).Run
        (start ⟨[], List.nodup_nil⟩ ⟨[], List.nodup_nil⟩)
        [.create "Vapor", .serve 0 (UUID.ofNat 1) {}, .handle 0 numbered true] after ∧
      after.device.respond (Listing.talkAt 0)
        (.run after.device.listing.coordinator.pending.length) true = some (.ok seen) ∧
      seen.respond (Listing.talkAt 0) .notify true = some (.ok shown) ∧
      shown.listing.screen.observed = some ids ∧ (UUID.ofNat 1).uuidString ∈ ids := by
  have same : Agree (start ⟨[], List.nodup_nil⟩ ⟨[], List.nodup_nil⟩).exchange :=
    Exchange.agree_empty
  have order : Replica.InOrder (history [.create "Vapor", .serve 0 (UUID.ofNat 1) {},
      .handle 0 numbered true]) := by
    apply Replica.inOrder_of_unlisted
    · intro number new member
      simp [history, Event.replica?, Replica.history, Replica.Journal.write, Replica.Journal.call,
        Replica.Journal.serve, Replica.Journal.handle] at member
    · intro number name member
      simp [history, Event.replica?, Replica.history, Replica.Journal.write, Replica.Journal.call,
        Replica.Journal.serve, Replica.Journal.handle] at member
  obtain ⟨after, run, settled, listed⟩ : ∃ after,
      (system ISO8601.gregorian (Listing.talkAt 0)).Run
        (start ⟨[], List.nodup_nil⟩ ⟨[], List.nodup_nil⟩)
        [.create "Vapor", .serve 0 (UUID.ofNat 1) {}, .handle 0 numbered true] after ∧
      (after.requests = [] ∧ after.replies = []) ∧ UUID.ofNat 1 ∈ after.server.keys :=
    ⟨_, .cons (.create "Vapor") (.cons (.serve List.not_mem_nil rfl rfl)
      (.cons (.handle rfl (.cons rfl (.nil _))) (.nil _))), ⟨rfl, rfl⟩, List.mem_singleton_self _⟩
  obtain ⟨seen, shown, ids, ran, notified, observed, _, agrees⟩ :=
    listing_agrees run same order settled true
  exact ⟨after, seen, shown, ids, run, ran, notified, observed, (agrees _).mpr ⟨_, listed, rfl⟩⟩

/-- The device keeps its listing and its data together in every run. -/
theorem device_of_run {store : TalkStore} {server : Database} {events : List Event}
    (run : (system iso empty).Run (start store server) events after) :
    after.device.Sound empty := by
  refine run.preserves (fun world => world.device.Sound empty)
    (fun before event after sound step => ?_)
    (Device.sound_start empty store)
  cases step with
  | fetchAll | create | serve => exact sound
  | delete present named responded => exact sound.step (.data responded)
  | handle arrived written => exact (written.sound sound).1
  | device alone stepped => exact sound.step stepped

/-- What the completion of `fetchAll` writes when the server's listing arrives. -/
theorem completionWrites_index (initials : Nat → Talk.Initial) (database : Database) :
    completionWrites iso initials .fetchAll
        (.content (.array ((TalksController.index database).map (Server.Talk.encode iso)))) =
      [.fetchAll initials ((TalksController.index database).map sharedOf)] := by
  rw [completionWrites, Reply.content, taskCompletions, decode_index]
  rfl

/-- A fetch that is sent when nothing is in flight can be served and handled: the device is left
with the talks of the server. -/
theorem fetches (sound : before.device.Sound empty)
    (settled : before.requests = [] ∧ before.replies = []) {new : UUID}
    (unused : new ∉ before.server.keys) (timestamps : Timestamps) (initials : Nat → Talk.Initial)
    (isVisible : Bool) :
    ∃ device : Device, device.Sound empty ∧
      (system iso empty).Run before
        [.fetchAll, .serve 0 new timestamps, .handle 0 initials isVisible]
        { before with device } ∧
      ∀ identifier, identifier ∈ device.latest.keys ↔
        ∃ id ∈ before.server.keys, id.uuidString = identifier := by
  obtain ⟨device, server, requests, replies⟩ := before
  obtain ⟨rfl, rfl⟩ := settled
  let talks := (TalksController.index server).map sharedOf
  have identified : ∀ talk ∈ talks, talk.id.isSome := by
    intro talk listed
    obtain ⟨_, indexed, rfl⟩ := List.mem_map.mp listed
    obtain ⟨row, _, rfl⟩ := List.mem_map.mp indexed
    rw [sharedOf, row.id_eq]
    rfl
  obtain ⟨fetched, committed, latest⟩ :=
    @Device.Sound.commits _ _ sound (.fetchAll initials talks) _ rfl isVisible
  have written : Writes empty isVisible device (completionWrites iso initials .fetchAll
      (.content (.array ((TalksController.index server).map (Server.Talk.encode iso)))))
      fetched := by
    rw [completionWrites_index]
    exact .cons committed (.nil fetched)
  refine ⟨fetched, sound.step (.data committed), ?_, fun identifier => ?_⟩
  · exact .cons .fetchAll (.cons (.serve unused rfl (respond_fetchAll iso new timestamps server))
      (.cons (.handle rfl written) (.nil _)))
  · rw [latest, TalksFetcher.mem_keys_fetchAllSuccess_of_identified initials _ identified]
    exact Set.ext_iff.mp (names_index server) identifier

/-- **A refresh repairs the listing.** Whatever was handled late in a run, once nothing is in
flight a fetch that is served and handled, with the notifier run and the realm told so, leaves
the listing with one talk for each talk of the server and no other. -/
theorem refresh_repairs {store : TalkStore} {server : Database} {events : List Event}
    (run : (system iso empty).Run (start store server) events before)
    (settled : before.requests = [] ∧ before.replies = []) {new : UUID}
    (unused : new ∉ before.server.keys) (timestamps : Timestamps) (initials : Nat → Talk.Initial)
    (isVisible : Bool) :
    ∃ after count ids, (system iso empty).Run before
        [.fetchAll, .serve 0 new timestamps, .handle 0 initials isVisible,
          .device (.data (.run count) isVisible), .device (.data .notify isVisible)] after ∧
      (after.requests = [] ∧ after.replies = []) ∧ after.server = before.server ∧
      after.device.listing.screen.observed = some ids ∧ ids.Nodup ∧
      ∀ identifier, identifier ∈ ids ↔ ∃ id ∈ before.server.keys, id.uuidString = identifier := by
  obtain ⟨device, sound, fetched, listed⟩ :=
    fetches (device_of_run run) settled unused timestamps initials isVisible
  obtain ⟨seen, shown, ran, notified, _, observed⟩ := sound.catchesUp isVisible
  have shows : (system iso empty).Run { before with device }
      [.device (.data (.run device.listing.coordinator.pending.length) isVisible),
        .device (.data .notify isVisible)] { before with device := shown } :=
    .cons (.device (alone_of_none rfl) (.data ran))
      (.cons (.device (alone_of_none rfl) (.data notified)) (.nil _))
  refine ⟨{ before with device := shown }, _, _, fetched.append shows, settled, rfl, observed, ?_,
    fun identifier => ?_⟩
  · exact (Query.byDateCreated.identifiers_perm _).nodup_iff.mpr device.latest.unique
  · rw [(Query.byDateCreated.identifiers_perm _).mem_iff]
    exact listed identifier

/-- The listing of the server arrives after a talk that it does not have: the talk is deleted
on the device, and a refresh brings it back. -/
theorem refresh_repairs_stale :
    ∃ before after count ids,
      (system ISO8601.gregorian (Listing.talkAt 0)).Run
        (start ⟨[], List.nodup_nil⟩ ⟨[], List.nodup_nil⟩)
        [.fetchAll, .serve 0 (UUID.ofNat 0) {}, .create "Vapor", .serve 0 (UUID.ofNat 1) {},
          .handle 1 numbered true, .handle 0 numbered true] before ∧
      before.device.latest.rows = [] ∧
      (system ISO8601.gregorian (Listing.talkAt 0)).Run before
        [.fetchAll, .serve 0 (UUID.ofNat 2) {}, .handle 0 numbered true,
          .device (.data (.run count) true), .device (.data .notify true)] after ∧
      after.device.listing.screen.observed = some ids ∧ (UUID.ofNat 1).uuidString ∈ ids := by
  obtain ⟨before, run, settled, forgotten, stored⟩ : ∃ before,
      (system ISO8601.gregorian (Listing.talkAt 0)).Run
        (start ⟨[], List.nodup_nil⟩ ⟨[], List.nodup_nil⟩)
        [.fetchAll, .serve 0 (UUID.ofNat 0) {}, .create "Vapor", .serve 0 (UUID.ofNat 1) {},
          .handle 1 numbered true, .handle 0 numbered true] before ∧
      (before.requests = [] ∧ before.replies = []) ∧ before.device.latest.rows = [] ∧
      before.server.keys = [UUID.ofNat 1] :=
    ⟨_, .cons .fetchAll (.cons (.serve List.not_mem_nil rfl rfl) (.cons (.create "Vapor")
      (.cons (.serve List.not_mem_nil rfl rfl) (.cons (.handle rfl (.cons rfl (.nil _)))
        (.cons (.handle rfl (.cons rfl (.nil _))) (.nil _)))))), ⟨rfl, rfl⟩, rfl, rfl⟩
  have unused : UUID.ofNat 2 ∉ before.server.keys := by
    rw [stored]
    decide
  obtain ⟨after, count, ids, refreshed, _, _, observed, _, listed⟩ :=
    refresh_repairs run settled unused {} numbered true
  refine ⟨before, after, count, ids, run, forgotten, refreshed, observed, (listed _).mpr ?_⟩
  exact ⟨_, stored ▸ List.mem_singleton_self _, rfl⟩

end Seen

end World

end EventTalks

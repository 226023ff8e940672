import EventTalks.Listing.Balance
import EventTalks.Realm.Coordinator
import EventTalks.Realm.Recording

/-! # The listing hears the notifier of its query

The listing observes its talks in a realm: what the notifier of the query delivers is what the
screen is notified of. Transactions of other realms are committed, the notifier runs, and the
realm advances, is refreshed and writes in any order, while the screen is refreshed and its
rows are rendered, tapped and swiped. Every batch of changes is one that the screen can be
notified of, leading from the talks at the notification before to the talks that the realm
reads, and the table accepts it (`EventTalks.LiveListing.notifications_accepted`).
-/

namespace EventTalks

open Foundation Realm

namespace LiveListing

/-- The live query of all talks, the newest first. -/
def byDateCreated : Results Talk :=
  .sortedBy fun first second => second.dateCreated.nanoseconds ≤ first.dateCreated.nanoseconds

/-- The identifiers that the query lists. -/
def listed (table : Table Talk) : List String :=
  (byDateCreated.items table).map fun row => row.value.identifier

/-- The talks of a table, as a store. -/
def Holds (store : TalkStore) (table : Table Talk) : Prop :=
  store.rows = table.rows.map Row.value

/-- The notifier of the observed query, and the screen. -/
structure State where
  coordinator : Coordinator Talk
  screen : Listing.Screen

/-- The screen hears a notification, or nothing, while its realm reads a store. -/
def hear (screen : Listing.Screen) (store : TalkStore) (isVisible : Bool) :
    Option Notification → Except Listing.Trap Listing.Screen
  | none => .ok { screen with store }
  | some .initial => .ok (screen.initial store)
  | some (.update changes) => screen.update store changes.edits isVisible

/-- What can happen: something to the notifier, while the screen is visible or not, or
something on the screen. A talk that is swiped away is deleted by a write of the realm. -/
inductive Event where
  | realm (event : Coordinator.Event Talk) (isVisible : Bool)
  | reloadData
  | cellForRowAt (row : Nat)
  | didSelectRowAt (row : Nat)
  | commitDelete (row : Nat)

/-- A transaction leaves the primary keys of the rows that stay as they are. -/
def KeepsKeys (before after : Table Talk) : Prop :=
  ∀ row ∈ after.rows, ∀ old ∈ before.rows, old.id = row.id →
    old.value.identifier = row.value.identifier

/-- The transaction of an event keeps the primary keys. -/
def Keyed (empty : Talk) (coordinator : Coordinator Talk) : Coordinator.Event Talk → Prop
  | .commit log | .write log => ∀ after, coordinator.latest.table.commit empty log = some after →
      KeepsKeys coordinator.latest.table after
  | .run _ | .notify | .refresh => True

/-- What the screen does by itself. -/
def onScreen : Event → Option Listing.Event
  | .realm _ _ => none
  | .reloadData => some .reloadData
  | .cellForRowAt row => some (.cellForRowAt row)
  | .didSelectRowAt row => some (.didSelectRowAt row)
  | .commitDelete row => some (.commitDelete row false)

/-- The screen and the notifier under events in any order. What the notifier delivers is heard
with the talks that the realm reads then, and the screen shows live talks afterwards. -/
inductive Step (empty : Talk) (before : State) : Event → State → Prop
  | realm {event : Coordinator.Event Talk} {isVisible : Bool} {coordinator : Coordinator Talk}
      {notification : Option Notification} {told read : TalkStore} {heard : Listing.Screen}
      (keyed : Keyed empty before.coordinator event)
      (responded : before.coordinator.respond empty byDateCreated event =
        some (coordinator, notification))
      (holds : Holds told (before.coordinator.tableRead coordinator event))
      (hears : hear before.screen told isVisible notification = .ok heard)
      (holds' : Holds read coordinator.realm.table) :
      Step empty before (.realm event isVisible) ⟨coordinator, { heard with store := read }⟩
  | screen {event : Event} {happens : Listing.Event} {screen : Listing.Screen}
      {effect : Listing.Effect} (own : onScreen event = some happens)
      (possible : before.screen.Delivered happens)
      (responded : before.screen.respond happens = .ok (screen, effect)) :
      Step empty before event ⟨before.coordinator, screen⟩

def system (empty : Talk) : System State Event where
  step := Step empty

/-- The screen has loaded and observes its query. -/
def start (snapshot : Snapshot Talk) (store : TalkStore) : State :=
  ⟨.start snapshot, Listing.viewDidLoad store⟩

/-! ## Primary keys along a run -/

section Keys

variable {empty : Talk} {base table after : Table Talk}

/-- A log that keeps the primary keys leaves the rows that stay known. -/
theorem known_of_commit {log : List (Instruction Talk)}
    (committed : table.commit empty log = some after) (keeps : KeepsKeys table after) :
    Known table after where
  older := Table.next_le_of_perform committed
  same row member before := by
    have listed := Table.mem_ids_of_perform committed (List.mem_map_of_mem member) before
    obtain ⟨old, among, same⟩ := List.mem_map.mp listed
    exact ⟨old, among, same, keeps row member old among same⟩

/-- Every transaction of some logs keeps the primary keys. -/
def KeyedLogs (empty : Talk) : Table Talk → List (List (Instruction Talk)) → Prop
  | _, [] => True
  | table, log :: logs => ∀ after, table.commit empty log = some after →
      Known table after ∧ KeyedLogs empty after logs

/-- One more log that keeps the primary keys. -/
theorem KeyedLogs.append {logs : List (List (Instruction Talk))} {log : List (Instruction Talk)}
    (keyed : KeyedLogs empty table logs) (committed : table.commits empty logs = some base)
    (next : ∀ after, base.commit empty log = some after → Known base after) :
    KeyedLogs empty table (logs ++ [log]) := by
  induction logs generalizing table with
  | nil =>
      obtain rfl := Option.some.inj committed
      exact fun after performed => ⟨next after performed, trivial⟩
  | cons first logs ih =>
      rw [Table.commits, List.foldlM_cons] at committed
      obtain ⟨middle, performed, rest⟩ := Option.bind_eq_some_iff.mp committed
      intro after performed'
      rw [performed, Option.some.injEq] at performed'
      subst performed'
      obtain ⟨known, later⟩ := keyed middle performed
      exact ⟨known, ih later rest⟩

/-- The first logs lead to a table that is known, and the others go on from there. -/
theorem KeyedLogs.drop {logs : List (List (Instruction Talk))} {count : Nat}
    (keyed : KeyedLogs empty table logs)
    (committed : table.commits empty (logs.take count) = some after) :
    Known table after ∧ KeyedLogs empty after (logs.drop count) := by
  induction count generalizing table logs with
  | zero =>
      obtain rfl := Option.some.inj committed
      exact ⟨known_refl table, keyed⟩
  | succ count ih =>
      cases logs with
      | nil =>
          obtain rfl := Option.some.inj committed
          exact ⟨known_refl table, keyed⟩
      | cons log logs =>
          rw [List.take_succ_cons, Table.commits, List.foldlM_cons] at committed
          obtain ⟨middle, performed, rest⟩ := Option.bind_eq_some_iff.mp committed
          obtain ⟨known, later⟩ := keyed middle performed
          obtain ⟨known', last⟩ := ih later rest
          exact ⟨known.trans known', last⟩

/-- What a notifier has not seen keeps the primary keys, and so did what it has seen since the
last notification. -/
structure Keys (empty : Talk) (coordinator : Coordinator Talk) : Prop where
  pending : KeyedLogs empty coordinator.notifier.table coordinator.pending
  delivered : ∀ base, coordinator.delivered = some base → Known base coordinator.notifier.table

variable {coordinator before later : Coordinator Talk} {notification : Option Notification}

/-- A transaction that keeps the primary keys is pending. -/
theorem Keys.commit {log : List (Instruction Talk)} (keys : Keys empty coordinator)
    (coherent : coordinator.Coherent empty byDateCreated)
    (keyed : ∀ after, coordinator.latest.table.commit empty log = some after →
      KeepsKeys coordinator.latest.table after)
    (committed : coordinator.commit empty log = some later) : Keys empty later := by
  obtain ⟨table, _, rfl⟩ := Option.map_eq_some_iff.mp committed
  refine ⟨keys.pending.append coherent.pending fun after performed => ?_, keys.delivered⟩
  exact known_of_commit performed (keyed after performed)

/-- The version of the realm does not matter. -/
theorem Keys.atRealm (keys : Keys empty coordinator) (realm : Snapshot Talk) :
    Keys empty { coordinator with realm } := ⟨keys.pending, keys.delivered⟩

/-- A delivery keeps the primary keys. -/
theorem Keys.delivers (keys : Keys empty coordinator)
    (delivers : Coordinator.Delivers coordinator later notification) : Keys empty later := by
  cases delivers with
  | nothing => exact ⟨keys.pending, keys.delivered⟩
  | initial | update =>
      exact ⟨keys.pending, fun base same => Option.some.inj same ▸ known_refl _⟩

/-- **Every event of the notifier** keeps the primary keys. -/
theorem Keys.takes {event : Coordinator.Event Talk} (keys : Keys empty before)
    (coherent : before.Coherent empty byDateCreated) (keyed : Keyed empty before event)
    (takes : Coordinator.Takes empty byDateCreated before event later notification) :
    Keys empty later := by
  cases takes with
  | commit committed => exact keys.commit coherent keyed committed
  | @run count _ performed =>
      obtain ⟨reading, read, _, committed, _⟩ := coherent.reads count
      rw [Coordinator.run, read, Option.map_some] at performed
      obtain rfl := Option.some.inj performed
      obtain ⟨known, rest⟩ := keys.pending.drop committed
      exact ⟨rest, fun base delivered => (keys.delivered base delivered).trans known⟩
  | still => exact keys
  | advances | discards => exact ⟨keys.pending, keys.delivered⟩
  | delivers notifies ran here delivered =>
      obtain ⟨middle, _⟩ := coherent.delivering here
      exact (keys.atRealm _).delivers (middle.delivers delivered)
  | writes ready delivered committed =>
      have delivers := coherent.advance.delivers delivered
      have begun := (keys.atRealm before.notifier).delivers delivers
      have told := coherent.advance.deliver ready.1 rfl delivers
      have latest : _ = before.latest := delivers.frame.1
      exact (begun.commit told (latest ▸ keyed) committed).atRealm _

end Keys

/-! ## The screen along a run -/

section Screen

variable {empty : Talk} {base table : Table Talk} {store : TalkStore}

/-- The identifiers that the query lists are those of the observed query of the store. -/
theorem identifiers_eq (holds : Holds store table) :
    Query.byDateCreated.identifiers store = listed table := by
  rw [Query.identifiers, Query.talks, holds, listed, byDateCreated, Results.items_sortedBy,
    ← List.map_insertionSort (fun first second : Row Talk =>
      second.value.dateCreated.nanoseconds ≤ first.value.dateCreated.nanoseconds) _
      Row.value _ fun _ _ _ _ => Iff.rfl, List.map_map]
  rfl

/-- **What leads from the rows before to the rows after** leads from their identifiers before
to their identifiers after. -/
theorem describes_of_known {edits : Edits} (known : Known base table)
    (describes : edits.Describes (byDateCreated.ids base) (byDateCreated.ids table)) :
    edits.Describes (listed base) (listed table) := by
  refine describes.rename fun old member row member' same => ?_
  have before := base.below old (Results.mem_items member)
  obtain ⟨other, among, id, key⟩ := known.same row (Results.mem_items member') (same ▸ before)
  rw [List.inj_on_of_nodup_map base.distinct (Results.mem_items member) among
    (same.trans id.symm), key]

/-- The screen observes its query, and knows the collection of the last notification. -/
structure Live (empty : Talk) (state : State) : Prop where
  notifier : state.coordinator.Coherent empty byDateCreated
  keys : Keys empty state.coordinator
  observing : state.screen.observing = true
  observed : state.screen.observed = state.coordinator.delivered.map listed
  remembers : state.screen.Remembers

/-- The listing is live at first. -/
theorem live_start (empty : Talk) (snapshot : Snapshot Talk) (store : TalkStore) :
    Live empty (start snapshot store) where
  notifier := Coordinator.coherent_start empty byDateCreated snapshot
  keys := ⟨trivial, nofun⟩
  observing := rfl
  observed := rfl
  remembers := rfl

variable {before after : State} {event : Coordinator.Event Talk} {coordinator : Coordinator Talk}
  {isVisible : Bool} {told read : TalkStore}

/-- **A notification can come to the screen**, and a batch is accepted. -/
theorem Live.accepts {notification : Notification} (live : Live empty before)
    (responded : before.coordinator.respond empty byDateCreated event =
      some (coordinator, some notification))
    (holds : Holds told (before.coordinator.tableRead coordinator event)) :
    match notification with
    | .initial => before.screen.Possible (.initial told)
    | .update changes => before.screen.Possible (.update told changes.edits isVisible) ∧
        ∃ heard, before.screen.update told changes.edits isVisible = .ok heard := by
  obtain ⟨seen, _, tells⟩ := live.notifier.tells responded
  rw [seen] at holds tells
  cases notification with
  | initial =>
      refine ⟨live.observing, ?_⟩
      rw [live.observed, tells]
      rfl
  | update changes =>
      obtain ⟨base, known, tells⟩ := tells
      have leads := describes_of_known (live.keys.delivered base known) tells.describes
      have possible : before.screen.Possible (.update told changes.edits isVisible) := by
        refine ⟨live.observing, listed base, ?_, identifiers_eq holds ▸ leads⟩
        rw [live.observed, known, Option.map_some]
      obtain ⟨_, old, observed, describes⟩ := possible
      have delivered : before.screen.Delivered (.update told changes.edits isVisible) :=
        ⟨live.observing, old, observed, describes.balanced⟩
      have balanced := live.remembers.balanced delivered
      refine ⟨⟨live.observing, old, observed, describes⟩, ?_⟩
      rw [Listing.Screen.update]
      by_cases visible : isVisible = true
      · rw [if_pos visible, Listing.Screen.endUpdates]
        exact ⟨_, if_pos balanced⟩
      · exact ⟨_, if_neg visible⟩

/-- What the screen holds once it has heard a notification, or nothing. -/
theorem Live.hears {notification : Option Notification} {heard : Listing.Screen}
    (live : Live empty before)
    (responded : before.coordinator.respond empty byDateCreated event =
      some (coordinator, notification))
    (holds : Holds told (before.coordinator.tableRead coordinator event))
    (hears : hear before.screen told isVisible notification = .ok heard) :
    heard.observing = true ∧ heard.observed = coordinator.delivered.map listed ∧
      heard.Remembers := by
  cases notification with
  | none =>
      obtain rfl := Except.ok.inj hears
      refine ⟨live.observing, ?_, live.remembers⟩
      rw [live.notifier.delivered_eq responded]
      exact live.observed
  | some notification =>
      obtain ⟨_, delivered, _⟩ := live.notifier.tells responded
      rw [delivered, Option.map_some, ← identifiers_eq holds]
      cases notification with
      | initial =>
          obtain rfl := Except.ok.inj hears
          have responds : before.screen.respond (.initial told) =
              .ok (before.screen.initial told, .nothing) := rfl
          exact ⟨live.observing, rfl, live.remembers.respond responds⟩
      | update changes =>
          have responds : before.screen.respond (.update told changes.edits isVisible) =
              .ok (heard, .nothing) := map_eq_ok.mpr ⟨heard, hears, rfl⟩
          have remembers := live.remembers.respond responds
          obtain ⟨rows, rfl, _⟩ := Listing.Screen.update_eq_ok hears
          exact ⟨live.observing, rfl, remembers⟩

/-- **Every step** leaves the screen observing the collection of the last notification. -/
theorem Live.step {event : Event} (live : Live empty before)
    (step : Step empty before event after) :
    Live empty after := by
  cases step with
  | realm keyed responded holds hears holds' =>
      have takes := Coordinator.takes_of_respond responded
      obtain ⟨observing, observed, remembers⟩ := live.hears responded holds hears
      exact ⟨live.notifier.takes takes, live.keys.takes live.notifier keyed takes, observing,
        observed, remembers⟩
  | @screen event happens screen effect own possible responded =>
      have remembers := live.remembers.respond responded
      have same : screen.observing = before.screen.observing ∧
          screen.observed = before.screen.observed := by
        cases event with
        | realm => cases own
        | reloadData =>
            obtain rfl := Option.some.inj own
            obtain ⟨rfl, _⟩ := Prod.mk.inj (Except.ok.inj responded)
            exact ⟨rfl, rfl⟩
        | cellForRowAt row =>
            obtain rfl := Option.some.inj own
            obtain ⟨rendered, done, same⟩ := map_eq_ok.mp responded
            obtain ⟨rfl, _⟩ := Prod.mk.inj same
            obtain ⟨_, _, _, _, rfl⟩ := Listing.Screen.cellForRowAt_eq_ok done
            exact ⟨rfl, rfl⟩
        | didSelectRowAt row =>
            obtain rfl := Option.some.inj own
            obtain ⟨_, _, same⟩ := map_eq_ok.mp responded
            obtain ⟨rfl, _⟩ := Prod.mk.inj same
            exact ⟨rfl, rfl⟩
        | commitDelete row =>
            obtain rfl := Option.some.inj own
            rcases Listing.Screen.commitDelete_eq_ok responded with
              ⟨rfl, _⟩ | ⟨_, _, _, _, _, _, _, rfl⟩
            · exact ⟨rfl, rfl⟩
            · exact ⟨rfl, rfl⟩
      exact ⟨live.notifier, live.keys, same.1.trans live.observing, same.2.trans live.observed,
        remembers⟩

/-- The listing is live in every run. -/
theorem Live.of_run {snapshot : Snapshot Talk} {events : List Event}
    (run : (system empty).Run (start snapshot store) events after) : Live empty after :=
  run.preserves (Live empty) (fun _ _ _ live step => live.step step)
    (live_start empty snapshot store)

/-- **What the notifier delivers is what the screen can be notified of**, in every order of
transactions, runs of the notifier, advances, refreshes and writes of the realm, and taps: the
first notification comes once, each batch leads from the talks at the notification before to
those that the realm reads, and the table accepts it. -/
theorem notifications_accepted {snapshot : Snapshot Talk} {events : List Event}
    (run : (system empty).Run (start snapshot store) events before) {notification : Notification}
    (responded : before.coordinator.respond empty byDateCreated event =
      some (coordinator, some notification))
    (holds : Holds told (before.coordinator.tableRead coordinator event)) :
    match notification with
    | .initial => before.screen.Possible (.initial told)
    | .update changes => before.screen.Possible (.update told changes.edits isVisible) ∧
        ∃ heard, before.screen.update told changes.edits isVisible = .ok heard :=
  (Live.of_run run).accepts responded holds

/-- A talk is inserted after the first notification; the screen is told of it while it is
visible. -/
theorem notifications_accepted_inserted :
    ∃ before changes heard, (system (Listing.talkAt 0)).Run
        (start ⟨0, [], 0, nofun, List.nodup_nil⟩ ⟨[], List.nodup_nil⟩)
        [.realm (.run 0) true, .realm .notify true,
          .realm (.commit [.insertEmptyRows 0 1 Nat.one_pos, .setDefault 0 (Listing.talkAt 1)])
            true,
          .realm (.run 1) true] before ∧
      before.screen.update ⟨[Listing.talkAt 1], List.nodup_singleton _⟩ changes true =
        .ok heard := by
  obtain ⟨before, base, run, ready, known, changed, rows⟩ : ∃ before base,
      (system (Listing.talkAt 0)).Run
        (start ⟨0, [], 0, nofun, List.nodup_nil⟩ ⟨[], List.nodup_nil⟩)
        [.realm (.run 0) true, .realm .notify true,
          .realm (.commit [.insertEmptyRows 0 1 Nat.one_pos, .setDefault 0 (Listing.talkAt 1)])
            true,
          .realm (.run 1) true] before ∧
      before.coordinator.Ready ∧ before.coordinator.delivered = some base ∧
      byDateCreated.items base ≠ byDateCreated.items before.coordinator.latest.table ∧
      before.coordinator.notifier.table.rows = [⟨0, Listing.talkAt 1⟩] := by
    have none : Holds ⟨[], List.nodup_nil⟩ ⟨[], 0, nofun, List.nodup_nil⟩ := rfl
    exact ⟨_, _, .cons (.realm trivial rfl none rfl none) (.cons (.realm trivial rfl none rfl none)
      (.cons (.realm (fun _ _ _ _ _ among => nomatch among) rfl none rfl none)
        (.cons (.realm trivial rfl none rfl none) (.nil _)))), ⟨rfl, rfl⟩, rfl,
      fun same => absurd (congrArg List.length same) (by decide), rfl⟩
  obtain ⟨coordinator, changes, notified⟩ :=
    (Live.of_run run).notifier.updates ready known changed
  have responded : before.coordinator.respond (Listing.talkAt 0) byDateCreated .notify =
      some (coordinator, some (.update changes)) := congrArg some notified
  have seen := ((Live.of_run run).notifier.tells responded).1
  have holds : Holds ⟨[Listing.talkAt 1], List.nodup_singleton _⟩
      (before.coordinator.tableRead coordinator .notify) := by
    rw [Holds, seen, rows]
    rfl
  obtain ⟨_, heard, updated⟩ : before.screen.Possible (.update _ changes.edits true) ∧
      ∃ heard, before.screen.update _ changes.edits true = .ok heard :=
    notifications_accepted run responded holds
  exact ⟨before, changes.edits, heard, run, updated⟩

end Screen

end LiveListing

end EventTalks

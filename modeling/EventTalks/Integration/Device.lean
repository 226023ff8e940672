import EventTalks.Integration.LiveListing
import EventTalks.Realm.Versions
import EventTalks.Services.Writes

/-! # The device

On the device the transactions are the writes of the app: a response is written in the
background, and the screens write in the realm of the listing. The store at each version is
what the writes before it made of the store at the start. Along every run, the listing accepts
whatever the notifier of its query tells, shows the store at the version that its realm reads,
and knows the collection of the store at some version (`EventTalks.Device.hears_stores`). Once
a fetch has been written, the listing knows the talks of the response as soon as the notifier
has run and the realm is told so (`EventTalks.Device.follows_fetch`).
-/

namespace EventTalks

open Foundation Realm LiveListing

/-- The store at each version, and the listing. -/
structure Device where
  stores : Nat → TalkStore
  listing : LiveListing.State

namespace Device

/-- What can happen to the data: a write in the background, or by a screen; and to the
notifier and the realm of the listing. -/
inductive Happening where
  | background (write : Write)
  | run (count : Nat)
  | notify
  | refresh
  | write (write : Write)

/-- What can happen: something to the data, while the listing is visible or not, or something
on the listing. -/
inductive Event where
  | data (happening : Happening) (isVisible : Bool)
  | listing (event : LiveListing.Event)

/-- Why the program stops: a write raises an exception, which no `try?` catches, or the screen
does not accept what it is told. -/
inductive Failure where
  | exception
  | trap (trap : Listing.Trap)

/-- The table of a store that is opened. -/
def tableOf (store : TalkStore) : Table Talk where
  rows := store.rows.zipIdx.map fun entry => ⟨entry.2, entry.1⟩
  next := store.rows.length
  below row member := by
    obtain ⟨entry, among, rfl⟩ := List.mem_map.mp member
    exact (List.mem_zipIdx' among).1
  distinct := by
    have ids : (store.rows.zipIdx.map fun entry => (⟨entry.2, entry.1⟩ : Row Talk)).map Row.id =
        store.rows.zipIdx.map Prod.snd := List.map_map ..
    rw [ids, List.zipIdx_map_snd]
    exact List.nodup_range'

/-- The table of a store has its rows. -/
theorem values_tableOf (store : TalkStore) : (tableOf store).values = store.rows := by
  have values : (tableOf store).values = store.rows.zipIdx.map Prod.fst := List.map_map ..
  rw [values, List.zipIdx_map_fst]

section Source

variable (empty : Talk) (device : Device)

/-- The store of the latest version. -/
def latest : TalkStore := device.stores device.listing.coordinator.latest.version

/-- A transaction makes the store of the next version. -/
def next (store : TalkStore) : Nat → TalkStore :=
  Function.update device.stores (device.listing.coordinator.latest.version + 1) store

/-- The log of a write, and the stores after it. -/
def record (write : Write) : Option (List (Instruction Talk) × (Nat → TalkStore)) := do
  let log ← write.log empty device.latest.rows
  let store ← write.perform device.latest
  return (log, device.next store)

/-- A write is recorded and committed, or it raises an exception. -/
def transaction (write : Write) (event : List (Instruction Talk) → Coordinator.Event Talk) :
    Except Failure (Coordinator.Event Talk × (Nat → TalkStore)) :=
  match device.record empty write with
  | some (log, stores) => .ok (event log, stores)
  | none => .error .exception

/-- What happens to the notifier, and the stores after it. -/
def happens : Happening → Except Failure (Coordinator.Event Talk × (Nat → TalkStore))
  | .background write => device.transaction empty write .commit
  | .run count => .ok (.run count, device.stores)
  | .notify => .ok (.notify, device.stores)
  | .refresh => .ok (.refresh, device.stores)
  | .write write => device.transaction empty write .write

/-- The store that the listing reads when it is notified: to write, its realm advances to the
latest version. -/
def told (stores : Nat → TalkStore) (coordinator : Coordinator Talk) :
    Coordinator.Event Talk → TalkStore
  | .write _ => device.latest
  | .commit _ | .run _ | .notify | .refresh => stores coordinator.realm.version

/-- What a happening does, if it can happen. -/
def respond (happening : Happening) (isVisible : Bool) : Option (Except Failure Device) :=
  match device.happens empty happening with
  | .error failure => some (.error failure)
  | .ok (event, stores) =>
      (device.listing.coordinator.respond empty byDateCreated event).map
        fun (coordinator, notification) =>
          match hear device.listing.screen (device.told stores coordinator event) isVisible
            notification with
          | .error trap => .error (.trap trap)
          | .ok heard =>
              .ok ⟨stores, coordinator, { heard with store := stores coordinator.realm.version }⟩

/-- The listing has loaded, with a store of which there is one version. -/
def start (store : TalkStore) : Device :=
  ⟨fun _ => store, LiveListing.start ⟨0, tableOf store⟩ store⟩

end Source

/-- The device under events in any order. -/
inductive Step (empty : Talk) (before : Device) : Event → Device → Prop
  | data {happening : Happening} {isVisible : Bool} {after : Device}
      (responded : before.respond empty happening isVisible = some (.ok after)) :
      Step empty before (.data happening isVisible) after
  | listing {event : LiveListing.Event} {happens : Listing.Event} {screen : Listing.Screen}
      {effect : Listing.Effect} (own : onScreen event = some happens)
      (possible : before.listing.screen.Delivered happens)
      (responded : before.listing.screen.respond happens = .ok (screen, effect)) :
      Step empty before (.listing event) ⟨before.stores, before.listing.coordinator, screen⟩

def system (empty : Talk) : System Device Event where
  step := Step empty

/-! ## What a write does to the data -/

/-- The screen and the notifier of the device go together, the table at each version holds the
store, and the screen shows the store at the version that the realm reads. -/
structure Sound (empty : Talk) (device : Device) : Prop where
  live : Live empty device.listing
  versions : Coordinator.Versions empty (fun version => Holds (device.stores version))
    device.listing.coordinator
  shows : device.listing.screen.store = device.stores device.listing.coordinator.realm.version

variable {empty : Talk} {device before after : Device} {happening : Happening}
  {isVisible : Bool}

/-- The device is sound at first. -/
theorem sound_start (empty : Talk) (store : TalkStore) : Sound empty (start store) where
  live := live_start empty _ store
  versions := Coordinator.Versions.start (values_tableOf store).symm
  shows := rfl

/-- Rows that are known keep their primary keys. -/
theorem keepsKeys_of_known {base table : Table Talk} (known : Known base table) :
    KeepsKeys base table := by
  intro row member old among same
  obtain ⟨other, among', same', key⟩ := known.same row member (same ▸ base.below old among)
  rw [List.inj_on_of_nodup_map base.distinct among among' (same.trans same'.symm), key]

/-- **The log of a write** is committed to the table of the next store. -/
theorem Sound.record (sound : Sound empty device) {write : Write}
    {log : List (Instruction Talk)} {stores : Nat → TalkStore}
    (recorded : device.record empty write = some (log, stores)) :
    ∃ table, device.listing.coordinator.latest.table.commit empty log = some table ∧
      KeepsKeys device.listing.coordinator.latest.table table ∧
      Holds (stores (device.listing.coordinator.latest.version + 1)) table ∧
      ∀ version ≤ device.listing.coordinator.latest.version,
        stores version = device.stores version := by
  have holds : Holds device.latest device.listing.coordinator.latest.table :=
    sound.versions.latest sound.live.notifier
  obtain ⟨log', logged, rest⟩ := Option.bind_eq_some_iff.mp recorded
  obtain ⟨store, performed, same⟩ := Option.bind_eq_some_iff.mp rest
  obtain ⟨rfl, rfl⟩ := Prod.mk.inj (Option.some.inj same)
  obtain ⟨other, logged', table, committed, values, known⟩ := Write.records holds.symm performed
  obtain rfl := Option.some.inj (logged.symm.trans logged')
  refine ⟨table, committed, keepsKeys_of_known known, ?_, fun version bound => ?_⟩
  · rw [next, Function.update_self]
    exact values.symm
  · rw [next, Function.update_of_ne (Nat.ne_of_lt (Nat.lt_succ_of_le bound))]

/-- A transaction that is made has been recorded. -/
theorem transaction_eq_ok {write : Write}
    {event : List (Instruction Talk) → Coordinator.Event Talk} {made : Coordinator.Event Talk}
    {stores : Nat → TalkStore}
    (happens : device.transaction empty write event = .ok (made, stores)) :
    ∃ log, device.record empty write = some (log, stores) ∧ event log = made := by
  rw [transaction] at happens
  cases recorded : device.record empty write with
  | none =>
      rw [recorded] at happens
      cases happens
  | some pair =>
      rw [recorded] at happens
      obtain ⟨rfl, rfl⟩ := Prod.mk.inj (Except.ok.inj happens)
      exact ⟨pair.1, rfl, rfl⟩

/-- Nothing is recorded of a write that raises an exception, and only of such a one. -/
theorem Sound.record_eq_none_iff (sound : Sound empty device) {write : Write} :
    device.record empty write = none ↔ write.perform device.latest = none := by
  have holds : Holds device.latest device.listing.coordinator.latest.table :=
    sound.versions.latest sound.live.notifier
  cases performed : write.perform device.latest with
  | none =>
      rw [Device.record, Write.log_eq_none empty performed]
      exact iff_of_true rfl rfl
  | some store =>
      obtain ⟨log, logged, _⟩ := @Write.records empty _ _ _ write holds.symm performed
      rw [Device.record, logged, performed]
      exact iff_of_false nofun nofun

/-- The write of a happening. -/
def Happening.write? : Happening → Option Write
  | .background change | .write change => some change
  | .run _ | .notify | .refresh => none

/-- **A write that raises an exception stops the program**, and nothing else does before the
listing is told. -/
theorem Sound.happens_eq_error_iff (sound : Sound empty device) {failure : Failure} :
    device.happens empty happening = .error failure ↔ failure = .exception ∧
      ∃ write, happening.write? = some write ∧ write.perform device.latest = none := by
  have raises : ∀ {write : Write} {event : List (Instruction Talk) → Coordinator.Event Talk},
      device.transaction empty write event = .error failure ↔ failure = .exception ∧
        ∃ other, some write = some other ∧ other.perform device.latest = none := by
    intro write event
    rw [transaction]
    cases recorded : device.record empty write with
    | none =>
        constructor
        · intro same
          exact ⟨(Except.error.inj same).symm, write, rfl, sound.record_eq_none_iff.mp recorded⟩
        · intro raised
          obtain ⟨rfl, _⟩ := raised
          rfl
    | some pair =>
        apply iff_of_false nofun
        intro raised
        obtain ⟨_, other, same, none⟩ := raised
        obtain rfl := Option.some.inj same
        rw [← sound.record_eq_none_iff, recorded] at none
        cases none
  cases happening with
  | background write | write write => exact raises
  | run | notify | refresh =>
      apply iff_of_false nofun
      intro raised
      obtain ⟨_, write, none, _⟩ := raised
      cases none

/-- What happens to the data keeps the primary keys and the stores from before, and makes the
store of the next version. -/
theorem Sound.happens {event : Coordinator.Event Talk} {stores : Nat → TalkStore}
    (sound : Sound empty device) (happens : device.happens empty happening = .ok (event, stores)) :
    Keyed empty device.listing.coordinator event ∧
      (∀ version ≤ device.listing.coordinator.latest.version,
        stores version = device.stores version) ∧
      ∀ log table, event.log? = some log →
        device.listing.coordinator.latest.table.commit empty log = some table →
        Holds (stores (device.listing.coordinator.latest.version + 1)) table := by
  have writes : ∀ {write : Write} {log : List (Instruction Talk)},
      device.record empty write = some (log, stores) →
      (∀ after, device.listing.coordinator.latest.table.commit empty log = some after →
        KeepsKeys device.listing.coordinator.latest.table after) ∧
      (∀ version ≤ device.listing.coordinator.latest.version,
        stores version = device.stores version) ∧
      ∀ log' table, some log = some log' →
        device.listing.coordinator.latest.table.commit empty log' = some table →
        Holds (stores (device.listing.coordinator.latest.version + 1)) table := by
    intro write log recorded
    obtain ⟨table, committed, keeps, holds, same⟩ := sound.record recorded
    refine ⟨fun after performed => ?_, same, fun log' after logged performed => ?_⟩
    · exact Option.some.inj (committed.symm.trans performed) ▸ keeps
    · obtain rfl := Option.some.inj logged
      exact Option.some.inj (committed.symm.trans performed) ▸ holds
  cases happening with
  | background write | write write =>
      obtain ⟨log, recorded, rfl⟩ := transaction_eq_ok happens
      exact writes recorded
  | run | notify | refresh =>
      obtain ⟨rfl, rfl⟩ := Prod.mk.inj (Except.ok.inj happens)
      exact ⟨trivial, fun _ _ => rfl, nofun⟩

/-! ## What the listing is told -/

/-- What can happen to the device is what can happen to the listing: each transaction keeps the
primary keys, and the stores that the listing reads are those of its tables. -/
theorem Sound.responds {event : Coordinator.Event Talk} {stores : Nat → TalkStore}
    {coordinator : Coordinator Talk} {notification : Option Notification}
    (sound : Sound empty device) (happens : device.happens empty happening = .ok (event, stores))
    (responded : device.listing.coordinator.respond empty byDateCreated event =
      some (coordinator, notification)) :
    Coordinator.Versions empty (fun version => Holds (stores version)) coordinator ∧
      Holds (device.told stores coordinator event)
        (device.listing.coordinator.tableRead coordinator event) := by
  obtain ⟨_, same, next⟩ := sound.happens happens
  have coherent := sound.live.notifier
  have earlier := sound.versions.mono coherent fun version bound table holds =>
    (same version bound).symm ▸ holds
  have versions := earlier.takes coherent next (Coordinator.takes_of_respond responded)
  refine ⟨versions, ?_⟩
  cases event with
  | write log => exact sound.versions.latest coherent
  | commit | run | notify | refresh => exact versions.realm

/-- The listing hears what it is told. -/
theorem Sound.hearing {event : Coordinator.Event Talk} {stores : Nat → TalkStore}
    {coordinator : Coordinator Talk} {notification : Option Notification}
    (sound : Sound empty device) (happens : device.happens empty happening = .ok (event, stores))
    (responded : device.listing.coordinator.respond empty byDateCreated event =
      some (coordinator, notification)) (isVisible : Bool) :
    ∃ heard, hear device.listing.screen (device.told stores coordinator event) isVisible
      notification = .ok heard := by
  obtain ⟨_, holds⟩ := sound.responds happens responded
  cases notification with
  | none => exact ⟨_, rfl⟩
  | some notification =>
      have accepted := @Live.accepts _ _ _ _ isVisible _ _ sound.live responded holds
      cases notification with
      | initial => exact ⟨_, rfl⟩
      | update changes => exact accepted.2

/-- **What stops the program** is a write that raises an exception; whatever the listing is
told, it accepts. -/
theorem Sound.outcome {outcome : Except Failure Device} (sound : Sound empty before)
    (responded : before.respond empty happening isVisible = some outcome) :
    (outcome = .error .exception ∧
      ∃ write, happening.write? = some write ∧ write.perform before.latest = none) ∨
    ∃ event stores coordinator notification heard,
      before.happens empty happening = .ok (event, stores) ∧
      before.listing.coordinator.respond empty byDateCreated event =
        some (coordinator, notification) ∧
      hear before.listing.screen (before.told stores coordinator event) isVisible notification =
        .ok heard ∧
      outcome = .ok ⟨stores, coordinator,
        { heard with store := stores coordinator.realm.version }⟩ := by
  rw [respond] at responded
  cases happens : before.happens empty happening with
  | error failure =>
      rw [happens] at responded
      obtain ⟨rfl, raised⟩ := sound.happens_eq_error_iff.mp happens
      exact Or.inl ⟨(Option.some.inj responded).symm, raised⟩
  | ok pair =>
      obtain ⟨event, stores⟩ := pair
      rw [happens] at responded
      obtain ⟨⟨coordinator, notification⟩, responds, done⟩ := Option.map_eq_some_iff.mp responded
      obtain ⟨heard, hears⟩ := sound.hearing happens responds isVisible
      refine Or.inr ⟨event, stores, coordinator, notification, heard, rfl, responds, hears, ?_⟩
      dsimp only at done
      rw [hears] at done
      exact done.symm

/-- The program stops with an exception when a write raises one. -/
theorem Sound.raises_iff {outcome : Except Failure Device} (sound : Sound empty before)
    (responded : before.respond empty happening isVisible = some outcome) :
    outcome = .error .exception ↔
      ∃ write, happening.write? = some write ∧ write.perform before.latest = none := by
  constructor
  · intro stopped
    obtain ⟨_, raised⟩ | ⟨_, _, _, _, _, _, _, _, done⟩ := sound.outcome responded
    · exact raised
    · cases stopped.symm.trans done
  · intro raised
    have stopped := sound.happens_eq_error_iff.mpr ⟨rfl, raised⟩
    rw [respond, stopped] at responded
    exact (Option.some.inj responded).symm

/-- What the listing has heard when a happening did not stop the program. -/
theorem Sound.hears (sound : Sound empty before)
    (responded : before.respond empty happening isVisible = some (.ok after)) :
    ∃ event stores coordinator notification heard,
      before.happens empty happening = .ok (event, stores) ∧
      before.listing.coordinator.respond empty byDateCreated event =
        some (coordinator, notification) ∧
      hear before.listing.screen (before.told stores coordinator event) isVisible notification =
        .ok heard ∧
      after = ⟨stores, coordinator, { heard with store := stores coordinator.realm.version }⟩ := by
  rcases sound.outcome responded with ⟨stopped, _⟩ | ⟨event, stores, coordinator, notification,
      heard, happens, responds, hears, done⟩
  · cases stopped
  · exact ⟨event, stores, coordinator, notification, heard, happens, responds, hears,
      Except.ok.inj done⟩

/-- **What a happening does to the latest store**: its write, if it has one. -/
theorem Sound.latest (sound : Sound empty before)
    (responded : before.respond empty happening isVisible = some (.ok after)) :
    match happening.write? with
    | none => after.latest = before.latest
    | some write => write.perform before.latest = some after.latest := by
  obtain ⟨event, stores, coordinator, notification, heard, happens, responds, hears, same⟩ :=
    sound.hears responded
  subst same
  have takes := Coordinator.takes_of_respond responds
  have version := Coordinator.Coherent.latest_of_takes sound.live.notifier takes
  cases happening with
  | background write | write write =>
      obtain ⟨log, recorded, rfl⟩ := transaction_eq_ok happens
      obtain ⟨_, _, rest⟩ := Option.bind_eq_some_iff.mp recorded
      obtain ⟨store, performed, same⟩ := Option.bind_eq_some_iff.mp rest
      obtain ⟨_, rfl⟩ := Prod.mk.inj (Option.some.inj same)
      have newest : before.next store coordinator.latest.version = store := by
        rw [version]
        exact Function.update_self ..
      exact performed.trans (congrArg some newest.symm)
  | run | notify | refresh =>
      obtain ⟨rfl, rfl⟩ := Prod.mk.inj (Except.ok.inj happens)
      exact congrArg (fun snapshot => before.stores snapshot.version) version

/-- What the screen does by itself leaves the store as it is. -/
theorem store_of_onScreen {event : LiveListing.Event} {happens : Listing.Event}
    {before after : Listing.Screen} {effect : Listing.Effect} (own : onScreen event = some happens)
    (responded : before.respond happens = .ok (after, effect)) : after.store = before.store := by
  cases event with
  | realm => cases own
  | reloadData =>
      obtain rfl := Option.some.inj own
      obtain ⟨rfl, _⟩ := Prod.mk.inj (Except.ok.inj responded)
      rfl
  | cellForRowAt row =>
      obtain rfl := Option.some.inj own
      obtain ⟨rendered, done, same⟩ := map_eq_ok.mp responded
      obtain ⟨rfl, _⟩ := Prod.mk.inj same
      obtain ⟨_, _, _, _, rfl⟩ := Listing.Screen.cellForRowAt_eq_ok done
      rfl
  | didSelectRowAt row =>
      obtain rfl := Option.some.inj own
      obtain ⟨_, _, same⟩ := map_eq_ok.mp responded
      obtain ⟨rfl, _⟩ := Prod.mk.inj same
      rfl
  | commitDelete row =>
      obtain rfl := Option.some.inj own
      rcases Listing.Screen.commitDelete_eq_ok responded with ⟨rfl, _⟩ | ⟨_, _, _, _, _, _, _, rfl⟩
      · rfl
      · rfl

/-- **Every step** keeps the listing and the data together. -/
theorem Sound.step {event : Event} (sound : Sound empty before)
    (step : Step empty before event after) : Sound empty after := by
  cases step with
  | @data happening isVisible after responded =>
      obtain ⟨event, stores, coordinator, notification, heard, happens, responds, hears, same⟩ :=
        sound.hears responded
      subst same
      obtain ⟨versions, holds⟩ := sound.responds happens responds
      have keyed := (sound.happens happens).1
      exact ⟨sound.live.step
        (@LiveListing.Step.realm _ _ _ isVisible _ _ _ _ _ keyed responds holds hears
        versions.realm), versions, rfl⟩
  | listing own possible responded =>
      refine ⟨sound.live.step (.screen own possible responded), sound.versions, ?_⟩
      exact (store_of_onScreen own responded).trans sound.shows

/-- The device is sound in every run. -/
theorem Sound.of_run {store : TalkStore} {events : List Event}
    (run : (system empty).Run (start store) events after) : Sound empty after :=
  run.preserves (Sound empty) (fun _ _ _ sound step => sound.step step) (sound_start empty store)

/-- The collection of the last notification is that of the store at a version. -/
theorem Sound.observed (sound : Sound empty device) {ids : List String}
    (observed : device.listing.screen.observed = some ids) :
    ∃ version ≤ device.listing.coordinator.notifier.version,
      ids = Query.byDateCreated.identifiers (device.stores version) := by
  rw [sound.live.observed, Option.map_eq_some_iff] at observed
  obtain ⟨base, delivered, rfl⟩ := observed
  obtain ⟨version, bound, holds⟩ := sound.versions.delivered base delivered
  exact ⟨version, bound, (identifiers_eq holds).symm⟩

/-! ## What becomes of a write -/

/-- A fetch that records nothing leaves the store as it is. -/
theorem Sound.fetchAll_unchanged (sound : Sound empty device) {initials : Nat → Talk.Initial}
    {talks : List Network.Response.Talk}
    (nothing : TalksFetcher.fetchAllLog empty initials device.latest.rows talks = []) :
    TalksFetcher.fetchAllSuccess initials device.latest talks = device.latest := by
  have holds : Holds device.latest device.listing.coordinator.latest.table :=
    sound.versions.latest sound.live.notifier
  obtain ⟨log, logged, table, committed, values, _⟩ :=
    @Write.records empty _ _ _ (.fetchAll initials talks) holds.symm rfl
  obtain rfl := Option.some.inj ((congrArg some nothing).symm.trans logged)
  obtain rfl := Option.some.inj committed
  exact KeyedTable.eq_of_rows (values.symm.trans holds.symm)

/-- What a happening does, when the listing hears what it is told. -/
theorem respond_eq {event : Coordinator.Event Talk} {stores : Nat → TalkStore}
    {coordinator : Coordinator Talk} {notification : Option Notification} {heard : Listing.Screen}
    (happens : device.happens empty happening = .ok (event, stores))
    (responds : device.listing.coordinator.respond empty byDateCreated event =
      some (coordinator, notification))
    (hears : hear device.listing.screen (device.told stores coordinator event) isVisible
      notification = .ok heard) :
    device.respond empty happening isVisible = some (.ok ⟨stores, coordinator,
      { heard with store := stores coordinator.realm.version }⟩) := by
  rw [respond, happens]
  dsimp only
  rw [responds, Option.map_some]
  dsimp only
  rw [hears]

/-- The screen once the realm has advanced, when it is not told anything. -/
def shownAt (device : Device) (stores : Nat → TalkStore) (coordinator : Coordinator Talk) :
    Device :=
  ⟨stores, coordinator, { device.listing.screen with store := stores coordinator.realm.version }⟩

/-- When nothing is told, the screen only shows another store. -/
theorem respond_eq_shownAt {event : Coordinator.Event Talk} {stores : Nat → TalkStore}
    {coordinator : Coordinator Talk}
    (happens : device.happens empty happening = .ok (event, stores))
    (responds : device.listing.coordinator.respond empty byDateCreated event =
      some (coordinator, none)) :
    device.respond empty happening isVisible = some (.ok (device.shownAt stores coordinator)) :=
  @respond_eq _ _ _ _ _ _ _ _
    { device.listing.screen with store := device.told stores coordinator event } happens responds
      rfl

/-- What a write in the background does. -/
theorem respond_background {write : Write} {log : List (Instruction Talk)} {store : TalkStore}
    {committed : Coordinator Talk} (logged : write.log empty device.latest.rows = some log)
    (performed : write.perform device.latest = some store)
    (commits : device.listing.coordinator.commit empty log = some committed) :
    device.respond empty (.background write) isVisible =
      some (.ok (device.shownAt (device.next store) committed)) := by
  have recorded : device.record empty write = some (log, device.next store) := by
    rw [Device.record, logged, performed]
    rfl
  have happens : device.happens empty (.background write) =
      .ok (.commit log, device.next store) := by
    rw [Device.happens, transaction, recorded]
  apply respond_eq_shownAt happens
  rw [Coordinator.respond, commits, Option.map_some]

/-- What a run of the notifier does. -/
theorem respond_run {count : Nat} {ran : Coordinator Talk}
    (runs : device.listing.coordinator.run empty byDateCreated count = some ran) :
    device.respond empty (.run count) isVisible =
      some (.ok (device.shownAt device.stores ran)) := by
  have happens : device.happens empty (.run count) = .ok (.run count, device.stores) := rfl
  apply respond_eq_shownAt happens
  rw [Coordinator.respond, runs, Option.map_some]

/-- A write that raises no exception can be committed in the background. -/
theorem Sound.commits (sound : Sound empty device) {write : Write} {store : TalkStore}
    (performed : write.perform device.latest = some store) (isVisible : Bool) :
    ∃ after, device.respond empty (.background write) isVisible = some (.ok after) ∧
      after.latest = store := by
  have holds : Holds device.latest device.listing.coordinator.latest.table :=
    sound.versions.latest sound.live.notifier
  obtain ⟨log, logged, table, committed, _⟩ := Write.records holds.symm performed
  have commits := congrArg (Option.map fun table => ({ device.listing.coordinator with
    latest := ⟨device.listing.coordinator.latest.version + 1, table⟩
    pending := device.listing.coordinator.pending ++ [log] } : Coordinator Talk)) committed
  exact ⟨_, respond_background logged performed commits, Function.update_self ..⟩

/-- **The listing catches up** once the notifier has run over all that is pending and the realm
is told so. -/
theorem Sound.catchesUp (sound : Sound empty device) (isVisible : Bool) :
    ∃ seen shown,
      device.respond empty (.run device.listing.coordinator.pending.length) isVisible =
        some (.ok seen) ∧
      seen.respond empty .notify isVisible = some (.ok shown) ∧
      shown.listing.screen.store = device.latest ∧
      shown.listing.screen.observed = some (Query.byDateCreated.identifiers device.latest) := by
  obtain ⟨ran, runs, ready, latest⟩ := sound.live.notifier.runs
  obtain ⟨seen, saw, stores, coordinator⟩ : ∃ seen,
      device.respond empty (.run device.listing.coordinator.pending.length) isVisible =
        some (.ok seen) ∧ seen.stores = device.stores ∧ seen.listing.coordinator = ran :=
    ⟨_, respond_run runs, rfl, rfl⟩
  have sound' := sound.step (.data saw)
  subst ran
  obtain ⟨after, notification, base, notified, _, version, _, delivered, items⟩ :=
    sound'.live.notifier.notified ready
  have happens : seen.happens empty .notify = .ok (.notify, seen.stores) := rfl
  have notifies : seen.listing.coordinator.respond empty byDateCreated .notify =
      some (after, notification) := congrArg some notified
  obtain ⟨heard, hears⟩ := sound'.hearing happens notifies isVisible
  have shown := respond_eq happens notifies hears
  have sound'' := sound'.step (.data shown)
  have holds : Holds device.latest device.listing.coordinator.latest.table :=
    sound.versions.latest sound.live.notifier
  refine ⟨seen, _, saw, shown, ?_, ?_⟩
  · rw [sound''.shows]
    dsimp only
    rw [version, latest, stores]
    rfl
  · rw [sound''.live.observed]
    dsimp only
    rw [delivered, Option.map_some, listed, items, latest, identifiers_eq holds]
    rfl

section Run

variable {store : TalkStore} {events : List Event}

/-- **The listing hears what was committed.** In every run of writes, notifications and taps, in
any order, what happens to the data stops the program only when it is a write that raises an
exception: whatever the listing is told, it accepts. The collection of its last notification
is then that of the store at a version that the notifier has seen. -/
theorem hears_stores (run : (system empty).Run (start store) events before)
    {outcome : Except Failure Device}
    (responded : before.respond empty happening isVisible = some outcome) :
    (outcome = .error .exception ↔
      ∃ write, happening.write? = some write ∧ write.perform before.latest = none) ∧
    (∀ trap, outcome ≠ .error (.trap trap)) ∧
    ∀ after, outcome = .ok after → ∀ ids, after.listing.screen.observed = some ids →
      ∃ version ≤ after.listing.coordinator.notifier.version,
        ids = Query.byDateCreated.identifiers (after.stores version) := by
  have sound := Sound.of_run run
  refine ⟨sound.raises_iff responded, fun trap same => ?_, fun after same ids => ?_⟩
  · obtain ⟨done, _⟩ | ⟨_, _, _, _, _, _, _, _, done⟩ := sound.outcome responded
    · cases same.symm.trans done
    · cases same.symm.trans done
  · subst same
    exact (sound.step (.data responded)).observed

/-- A talk is added in the background, and the listing, which knew none, is told so. An edit of a
talk that is gone stops the program. -/
theorem hears_stores_added :
    let events : List Event := [.data (.run 0) true, .data .notify true,
      .data (.background (.add (Listing.talkAt 1))) true]
    ∃ added seen shown, (system (Listing.talkAt 0)).Run (start ⟨[], List.nodup_nil⟩) events added ∧
      added.listing.screen.observed = some [] ∧
      added.respond (Listing.talkAt 0) (.run added.listing.coordinator.pending.length) true =
        some (.ok seen) ∧
      seen.respond (Listing.talkAt 0) .notify true = some (.ok shown) ∧
      shown.listing.screen.observed = some [(Listing.talkAt 1).identifier] ∧
      (∃ version ≤ shown.listing.coordinator.notifier.version,
        [(Listing.talkAt 1).identifier] =
          Query.byDateCreated.identifiers (shown.stores version)) ∧
      added.respond (Listing.talkAt 0)
        (.background (.set (Listing.talkAt 2).identifier .name (Listing.talkAt 2))) true =
          some (.error .exception) := by
  intro events
  obtain ⟨added, run, knew, latest, outcome, responded⟩ : ∃ added,
      (system (Listing.talkAt 0)).Run (start ⟨[], List.nodup_nil⟩) events added ∧
      added.listing.screen.observed = some [] ∧
      added.latest = ⟨[Listing.talkAt 1], List.nodup_singleton _⟩ ∧
      ∃ outcome, added.respond (Listing.talkAt 0)
        (.background (.set (Listing.talkAt 2).identifier .name (Listing.talkAt 2))) true =
          some outcome :=
    ⟨_, .cons (.data rfl) (.cons (.data rfl) (.cons (.data rfl) (.nil _))), rfl, rfl, _, rfl⟩
  have absent : (⟨[Listing.talkAt 1], List.nodup_singleton _⟩ : TalkStore).get?
      (Listing.talkAt 2).identifier = none := by
    decide
  have stops : outcome = .error .exception := by
    apply (hears_stores run responded).1.mpr
    refine ⟨_, rfl, ?_⟩
    rw [latest, Write.perform, absent]
    rfl
  obtain ⟨seen, shown, ran, notified, _, observed⟩ := (Sound.of_run run).catchesUp true
  have known : shown.listing.screen.observed = some [(Listing.talkAt 1).identifier] := by
    rw [observed, latest]
    rfl
  have told := (hears_stores (run.append (.cons (.data ran) (.nil _))) notified).2.2 shown rfl
  exact ⟨added, seen, shown, run, knew, ran, notified, known, told _ known,
    stops ▸ responded⟩

/-- **The listing follows a fetch.** In every run the response of a fetch can be written in the
background, and once the notifier has run over all that is pending and the realm is told so,
the listing knows one talk for each identifier of the response and no other, the newest first,
and shows the store that holds them. -/
theorem follows_fetch (run : (system empty).Run (start store) events before)
    (initials : Nat → Talk.Initial) {talks : List Network.Response.Talk}
    (identified : ∀ talk ∈ talks, talk.id.isSome) (isVisible : Bool) :
    ∃ fetched seen shown ids,
      before.respond empty (.background (.fetchAll initials talks)) isVisible =
        some (.ok fetched) ∧
      fetched.respond empty (.run fetched.listing.coordinator.pending.length) isVisible =
        some (.ok seen) ∧
      seen.respond empty .notify isVisible = some (.ok shown) ∧
      shown.listing.screen.observed = some ids ∧
      ids = Query.byDateCreated.identifiers shown.listing.screen.store ∧ ids.Nodup ∧
      ∀ identifier, identifier ∈ ids ↔ ∃ talk ∈ talks, talk.id = some identifier := by
  have sound := Sound.of_run run
  obtain ⟨fetched, committed, latest⟩ :=
    @Sound.commits _ _ sound (.fetchAll initials talks) _ rfl isVisible
  obtain ⟨seen, shown, ran, notified, store, observed⟩ :=
    (sound.step (.data committed)).catchesUp isVisible
  refine ⟨fetched, seen, shown, _, committed, ran, notified, observed, by rw [store], ?_, ?_⟩
  · exact (Query.byDateCreated.identifiers_perm _).nodup_iff.mpr fetched.latest.unique
  · intro identifier
    rw [(Query.byDateCreated.identifiers_perm _).mem_iff, latest]
    exact TalksFetcher.mem_keys_fetchAllSuccess_of_identified initials before.latest identified
      identifier

/-- The response has one talk, which is new. -/
theorem follows_fetch_new :
    ∃ fetched seen shown ids,
      (start ⟨[Listing.talkAt 1], List.nodup_singleton _⟩).respond (Listing.talkAt 0)
        (.background (.fetchAll default [{ id := some "a", title := "title" }])) true =
          some (.ok fetched) ∧
      fetched.respond (Listing.talkAt 0) (.run fetched.listing.coordinator.pending.length) true =
        some (.ok seen) ∧
      seen.respond (Listing.talkAt 0) .notify true = some (.ok shown) ∧
      shown.listing.screen.observed = some ids ∧ "a" ∈ ids := by
  obtain ⟨fetched, seen, shown, ids, committed, ran, notified, observed, _, _, listed⟩ :=
    @follows_fetch _ _ _ _ (.nil (start ⟨[Listing.talkAt 1], List.nodup_singleton _⟩)) default
      [{ id := some "a", title := "title" }] (by decide) true
  refine ⟨fetched, seen, shown, ids, committed, ran, notified, observed, (listed "a").mpr ?_⟩
  exact ⟨_, List.mem_singleton_self _, rfl⟩

/-- **A fetch that changes nothing leaves the listing alone.** When the listing has caught up and
the store is as the response has it, the write of the response, the run of the notifier and the
notification of the realm leave the screen as it is. -/
theorem unchanged_fetch (run : (system empty).Run (start store) events before)
    (caught : before.listing.coordinator.CaughtUp) (initials : Nat → Talk.Initial)
    {talks : List Network.Response.Talk}
    (present : ∀ object ∈ TalksFetcher.talksToUpdate initials talks, object ∈ before.latest.rows)
    (complete : ∀ row ∈ before.latest.rows,
      row.identifier ∈ (TalksFetcher.talksToUpdate initials talks).map Talk.identifier)
    (isVisible : Bool) :
    ∃ fetched seen shown,
      before.respond empty (.background (.fetchAll initials talks)) isVisible =
        some (.ok fetched) ∧
      fetched.respond empty (.run fetched.listing.coordinator.pending.length) isVisible =
        some (.ok seen) ∧
      seen.respond empty .notify isVisible = some (.ok shown) ∧
      shown.listing.screen = before.listing.screen := by
  have sound := Sound.of_run run
  obtain ⟨committed, ran, after, commits, runs, notified, version⟩ :=
    sound.live.notifier.silent caught
  have nothing := (TalksFetcher.fetchAllLog_eq_nil_iff empty initials before.latest talks).mpr
    ⟨present, complete⟩
  have logged : (Write.fetchAll initials talks).log empty before.latest.rows = some [] :=
    congrArg some nothing
  let stores := before.next (TalksFetcher.fetchAllSuccess initials before.latest talks)
  have fetched := @respond_background empty before isVisible _ _ _ _ logged rfl commits
  have seen := @respond_run empty (before.shownAt stores committed) isVisible _ _ runs
  have shown := @respond_eq_shownAt empty ((before.shownAt stores committed).shownAt stores ran)
    .notify isVisible .notify stores after rfl (congrArg some notified)
  refine ⟨_, _, _, fetched, seen, shown, ?_⟩
  have same : stores after.realm.version = before.listing.screen.store := by
    rw [version, sound.shows, caught.realm]
    exact (Function.update_self ..).trans (sound.fetchAll_unchanged nothing)
  rw [shownAt, same]
  rfl

/-- The response has the one talk of the store. -/
theorem unchanged_fetch_same :
    let shared : Network.Response.Talk := { id := some "a", title := "title" }
    ∃ before fetched seen shown,
      (system (Listing.talkAt 0)).Run
        (start ⟨[Talk.fromShared default shared], List.nodup_singleton _⟩)
        [.data (.run 0) true, .data .notify true] before ∧
      before.respond (Listing.talkAt 0) (.background (.fetchAll default [shared])) true =
        some (.ok fetched) ∧
      fetched.respond (Listing.talkAt 0) (.run fetched.listing.coordinator.pending.length) true =
        some (.ok seen) ∧
      seen.respond (Listing.talkAt 0) .notify true = some (.ok shown) ∧
      shown.listing.screen = before.listing.screen := by
  intro shared
  obtain ⟨before, run, caught, rows⟩ : ∃ before, (system (Listing.talkAt 0)).Run
      (start ⟨[Talk.fromShared default shared], List.nodup_singleton _⟩)
      [.data (.run 0) true, .data .notify true] before ∧
      before.listing.coordinator.CaughtUp ∧ before.latest.rows = [Talk.fromShared default shared] :=
    ⟨_, .cons (.data rfl) (.cons (.data rfl) (.nil _)), ⟨⟨rfl, rfl⟩, rfl, rfl, rfl⟩, rfl⟩
  obtain ⟨fetched, seen, shown, committed, ran, notified, same⟩ :=
    @unchanged_fetch _ _ _ _ run caught default [shared] (by rw [rows]; decide)
      (by rw [rows]; decide) true
  exact ⟨before, fetched, seen, shown, run, committed, ran, notified, same⟩

end Run

end Device

end EventTalks

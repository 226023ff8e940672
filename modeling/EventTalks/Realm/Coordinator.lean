import EventTalks.Foundation.Run
import EventTalks.Realm.Results

/-! # Notifying the changes of a collection

Transactions are committed while a notifier, in a thread of its own, follows them at its own
pace: it reads the log from the version that it has seen to a later one, finds the rows of its
collection again, calculates the changes, and merges them into those that it has not delivered
yet (`EventTalks.Realm.Coordinator.run`). What it has accumulated is delivered to an observer
when the observer's realm advances (`EventTalks.Realm.Coordinator.notify`), is refreshed, or
begins to write.
-/

namespace EventTalks.Realm

open Foundation

variable {β : Type*}

/-- A version of the table. -/
structure Snapshot (β : Type*) where
  version : Nat
  table : Table β

/-- The versions of the table that are known to its writers, to the realm of the observer and
to the notifier, with the logs of the transactions that the notifier has not seen; what the
notifier and its callback hold; and, to speak of a run, the table at the last notification and
the rows whose value was set since then, as far as the notifier has read. -/
structure Coordinator (β : Type*) where
  latest : Snapshot β
  realm : Snapshot β
  notifier : Snapshot β
  pending : List (List (Instruction β)) := []
  hasRun : Bool := false
  previousRows : List Nat := []
  accumulatedChanges : CollectionChangeBuilder := .none
  initialDelivered : Bool := false
  skip : Bool := true
  delivered : Option (Table β) := none
  modified : List Nat := []

/-- What the observer is told. -/
inductive Notification where
  | initial
  | update (changes : CollectionChangeSet)

namespace Coordinator

/-- A notifier is made for an observer of a realm. -/
def start (snapshot : Snapshot β) : Coordinator β :=
  { latest := snapshot, realm := snapshot, notifier := snapshot }

section Source

variable (empty : β) (results : Results β) (coordinator : Coordinator β)

/-- A transaction is committed by another realm. -/
def commit (log : List (Instruction β)) : Option (Coordinator β) :=
  (coordinator.latest.table.commit empty log).map fun table =>
    { coordinator with
      latest := ⟨coordinator.latest.version + 1, table⟩
      pending := coordinator.pending ++ [log] }

/-- The notifier advances over some of the transactions that it has not seen. When it runs
for the first time there is nothing to tell, nor is there when the table is as it was. -/
def run (count : Nat) : Option (Coordinator β) :=
  let log := (coordinator.pending.take count).flatten
  ((Reading.start coordinator.notifier.table).read empty log).map fun reading =>
    let nextRows := results.rows reading.table
    let changes :=
      if coordinator.hasRun ∧ ¬ log.isEmpty then
        ResultsNotifier.calculateChanges coordinator.previousRows nextRows
          reading.changes.parseComplete
      else CollectionChangeBuilder.none
    { coordinator with
      notifier :=
        ⟨coordinator.notifier.version + (coordinator.pending.take count).length, reading.table⟩
      pending := coordinator.pending.drop count
      hasRun := true
      previousRows :=
        if coordinator.hasRun ∧ log.isEmpty then coordinator.previousRows else nextRows
      accumulatedChanges := coordinator.accumulatedChanges.merge changes
      modified := reading.modified ++ coordinator.modified }

/-- What was accumulated is packaged, and the callback is called, unless it has been called
before and there is nothing to tell. The first time, it does not tell any changes. -/
def deliver : Coordinator β × Option Notification :=
  let changes := coordinator.accumulatedChanges.finalize
  let packaged := { coordinator with accumulatedChanges := CollectionChangeBuilder.none }
  if coordinator.initialDelivered ∧ changes.empty then (packaged, none)
  else
    ({ packaged with
      initialDelivered := true
      skip := false
      delivered := some coordinator.notifier.table
      modified := [] },
      some (if coordinator.skip ∨ changes.empty then .initial else .update changes))

/-- The realm is told that there may be something new. If there is no newer version, what was
accumulated for its own is delivered. Otherwise it advances: to the latest version when the
notifier has not run, and else to the one that the notifier has seen. What is out of date is
discarded. -/
def notify : Coordinator β × Option Notification :=
  if coordinator.realm.version = coordinator.latest.version then
    if coordinator.hasRun ∧ coordinator.notifier.version = coordinator.realm.version then
      coordinator.deliver
    else (coordinator, none)
  else if coordinator.hasRun then
    if coordinator.notifier.version < coordinator.realm.version then
      ({ coordinator with accumulatedChanges := CollectionChangeBuilder.none }, none)
    else if coordinator.notifier.version = coordinator.realm.version then coordinator.deliver
    else { coordinator with realm := coordinator.notifier }.deliver
  else ({ coordinator with realm := coordinator.latest }, none)

/-- The notifier has run for the latest version: what waits for that can go on. -/
def Ready : Prop :=
  coordinator.hasRun ∧ coordinator.notifier.version = coordinator.latest.version

instance : Decidable coordinator.Ready := inferInstanceAs (Decidable (_ ∧ _))

/-- The realm advances to the latest version, when the notifier has run for it. -/
def refresh : Option (Coordinator β × Option Notification) :=
  if coordinator.Ready then some { coordinator with realm := coordinator.notifier }.deliver
  else none

/-- The realm itself commits a transaction. To begin it, it advances to the latest version,
when the notifier has run for it. -/
def write (log : List (Instruction β)) : Option (Coordinator β × Option Notification) :=
  if coordinator.Ready then
    let begun := { coordinator with realm := coordinator.notifier }.deliver
    (begun.1.commit empty log).map fun committed =>
      ({ committed with realm := committed.latest }, begun.2)
  else none

end Source

/-- What can happen to a notifier. -/
inductive Event (β : Type*) where
  | commit (log : List (Instruction β))
  | run (count : Nat)
  | notify
  | refresh
  | write (log : List (Instruction β))

/-- What an event does, if it can happen. -/
def respond (empty : β) (results : Results β) (coordinator : Coordinator β) :
    Event β → Option (Coordinator β × Option Notification)
  | .commit log => (coordinator.commit empty log).map (·, none)
  | .run count => (coordinator.run empty results count).map (·, none)
  | .notify => some coordinator.notify
  | .refresh => coordinator.refresh
  | .write log => coordinator.write empty log

/-- The notifier under events in any order. -/
def system (empty : β) (results : Results β) : System (Coordinator β) (Event β) where
  step before event after :=
    ∃ notification, before.respond empty results event = some (after, notification)

end Coordinator

/-! ## The notifier along a run -/

namespace Coordinator

/-- The versions fit together; once the observer has been told something, what has been
accumulated since then tells how the collection changed, and is all that is discarded
when the realm is ahead of the notifier: nothing. -/
structure Coherent (empty : β) (results : Results β) (coordinator : Coordinator β) : Prop where
  pending : coordinator.notifier.table.commits empty coordinator.pending =
    some coordinator.latest.table
  latest : coordinator.latest.version = coordinator.notifier.version + coordinator.pending.length
  bounded : coordinator.realm.version ≤ coordinator.latest.version
  realm : coordinator.notifier.version ≤ coordinator.realm.version →
    coordinator.notifier.table.commits empty
        (coordinator.pending.take (coordinator.realm.version - coordinator.notifier.version)) =
      some coordinator.realm.table
  previousRows : coordinator.hasRun →
    coordinator.previousRows = results.rows coordinator.notifier.table
  initial : coordinator.initialDelivered = coordinator.delivered.isSome
  skip : coordinator.skip = coordinator.delivered.isNone
  ran : ∀ base, coordinator.delivered = some base → coordinator.hasRun
  ahead : ∀ base, coordinator.delivered = some base →
    coordinator.notifier.version < coordinator.realm.version →
      coordinator.realm.version = coordinator.notifier.version + 1 ∧
        coordinator.accumulatedChanges = CollectionChangeBuilder.none
  told : ∀ base, coordinator.delivered = some base →
    Told results base coordinator.notifier.table coordinator.accumulatedChanges
      coordinator.modified

variable {empty : β} {results : Results β} {coordinator : Coordinator β}

/-- A notifier that has not run is coherent. -/
theorem coherent_start (empty : β) (results : Results β) (snapshot : Snapshot β) :
    (start snapshot).Coherent empty results where
  pending := rfl
  latest := rfl
  bounded := Nat.le_refl _
  realm _ := by
    rw [start, Nat.sub_self]
    rfl
  previousRows := nofun
  initial := rfl
  skip := rfl
  ran := nofun
  ahead := nofun
  told := nofun

/-- A transaction that is committed is pending. -/
theorem Coherent.commit {log : List (Instruction β)} {after : Coordinator β}
    (coherent : coordinator.Coherent empty results)
    (committed : coordinator.commit empty log = some after) : after.Coherent empty results := by
  obtain ⟨table, performed, rfl⟩ := Option.map_eq_some_iff.mp committed
  refine ⟨?_, ?_, Nat.le_succ_of_le coherent.bounded, fun seen => ?_, coherent.previousRows,
    coherent.initial, coherent.skip, coherent.ran, coherent.ahead, coherent.told⟩
  · rw [Table.commits_append, coherent.pending, Option.bind_some, Table.commits, List.foldlM_cons,
      performed]
    rfl
  · rw [List.length_append, coherent.latest]
    rfl
  · have bounded := coherent.bounded
    rw [coherent.latest] at bounded
    dsimp only at seen ⊢
    rw [List.take_append_of_le_length (by omega)]
    exact coherent.realm seen

/-- **The notifier can always run**: it reads the log, and sees a later version. -/
theorem Coherent.reads (coherent : coordinator.Coherent empty results) (count : Nat) :
    ∃ reading, (Reading.start coordinator.notifier.table).read empty
        (coordinator.pending.take count).flatten = some reading ∧
      reading.Sound coordinator.notifier.table ∧
      coordinator.notifier.table.commits empty (coordinator.pending.take count) =
        some reading.table ∧
      reading.table.commits empty (coordinator.pending.drop count) =
        some coordinator.latest.table := by
  have pending := coherent.pending
  rw [← List.take_append_drop count coordinator.pending, Table.commits_append] at pending
  obtain ⟨table, committed, rest⟩ := Option.bind_eq_some_iff.mp pending
  have found := (Reading.table_read empty (Reading.start coordinator.notifier.table)
    (coordinator.pending.take count).flatten).trans
      (Table.perform_of_commits (Nat.le_refl _) committed)
  obtain ⟨reading, read, rfl⟩ := Option.map_eq_some_iff.mp found
  exact ⟨reading, read, (Reading.sound_start _).read read, committed, rest⟩

/-- To take more of a list is to take the rest after what was taken. -/
theorem take_eq_append {α : Type*} {items : List α} {count more : Nat}
    (within : (items.take count).length ≤ more) : items.take more =
      items.take count ++ (items.drop count).take (more - (items.take count).length) := by
  by_cases short : items.length ≤ count
  · rw [List.take_of_length_le short] at within ⊢
    rw [List.take_of_length_le within, List.drop_of_length_le short, List.take_nil, List.append_nil]
  · have length : (items.take count).length = count :=
      List.length_take_of_le (Nat.le_of_not_le short)
    rw [length] at within ⊢
    rw [← List.take_add, Nat.add_sub_cancel' within]

/-- Merging no changes changes nothing. -/
theorem merge_none (changes : CollectionChangeBuilder) :
    changes.merge CollectionChangeBuilder.none = changes := rfl

/-- What a log without instructions leaves as it was. -/
theorem reading_of_isEmpty {table : Table β} {log : List (Instruction β)} {reading : Reading β}
    (none : log.isEmpty = true) (read : (Reading.start table).read empty log = some reading) :
    reading = Reading.start table := by
  rw [List.isEmpty_iff.mp none] at read
  exact (Option.some.inj read).symm

/-- A run takes the changes of the transactions that it advances over. -/
theorem Coherent.run {count : Nat} {after : Coordinator β}
    (coherent : coordinator.Coherent empty results)
    (performed : coordinator.run empty results count = some after) :
    after.Coherent empty results := by
  obtain ⟨reading, read, sound, committed, rest⟩ := coherent.reads count
  rw [Coordinator.run, read, Option.map_some] at performed
  obtain rfl := Option.some.inj performed
  have seen := List.length_take (i := count) (l := coordinator.pending)
  refine ⟨rest, ?_, coherent.bounded, fun later => ?_, fun _ => ?_, coherent.initial,
    coherent.skip, fun _ _ => rfl, fun base delivered later => ?_, fun base delivered => ?_⟩
  · dsimp only
    rw [List.length_drop, coherent.latest]
    omega
  · dsimp only at later ⊢
    have known := coherent.realm (by omega)
    have split : coordinator.pending.take
        (coordinator.realm.version - coordinator.notifier.version) =
        coordinator.pending.take count ++ (coordinator.pending.drop count).take
          (coordinator.realm.version -
            (coordinator.notifier.version + (coordinator.pending.take count).length)) := by
      rw [Nat.sub_add_eq]
      exact take_eq_append (by omega)
    rw [split, Table.commits_append, committed] at known
    exact known
  · dsimp only
    by_cases none : coordinator.hasRun = true ∧
      (coordinator.pending.take count).flatten.isEmpty = true
    · rw [if_pos none, reading_of_isEmpty none.2 read]
      exact coherent.previousRows none.1
    · rw [if_neg none]
  · dsimp only at later ⊢
    obtain ⟨next, nothing⟩ := coherent.ahead base delivered (by omega)
    have still : (coordinator.pending.take count).length = 0 := by omega
    refine ⟨by omega, ?_⟩
    rw [if_neg, merge_none, nothing]
    rw [List.length_eq_zero_iff.mp still]
    exact fun some => some.2 rfl
  · dsimp only
    have ran := coherent.ran base delivered
    have told := coherent.told base delivered
    by_cases none : (coordinator.pending.take count).flatten.isEmpty = true
    · rw [if_neg fun some => some.2 none, merge_none, reading_of_isEmpty none read]
      exact told
    · rw [if_pos ⟨ran, none⟩, coherent.previousRows ran]
      exact told.merge sound.told

/-! ## What is delivered -/

/-- What the state is once what was accumulated has been delivered, whether or not the
observer is told. -/
inductive Delivers (before : Coordinator β) : Coordinator β → Option Notification → Prop
  | nothing {base : Table β} (delivered : before.delivered = some base)
      (empty : before.accumulatedChanges.finalize.empty = true) :
      Delivers before { before with accumulatedChanges := .none } none
  | initial (fresh : before.delivered = none) :
      Delivers before
        { before with
          accumulatedChanges := .none
          initialDelivered := true
          skip := false
          delivered := some before.notifier.table
          modified := [] } (some .initial)
  | update {base : Table β} (delivered : before.delivered = some base) :
      Delivers before
        { before with
          accumulatedChanges := .none
          initialDelivered := true
          skip := false
          delivered := some before.notifier.table
          modified := [] } (some (.update before.accumulatedChanges.finalize))

/-- What is delivered leads to what the notifier has seen. -/
theorem Coherent.delivers {after : Coordinator β} {notification : Option Notification}
    (coherent : coordinator.Coherent empty results)
    (delivered : coordinator.deliver = (after, notification)) :
    Delivers coordinator after notification := by
  have initial := coherent.initial
  have skip := coherent.skip
  cases found : coordinator.delivered with
  | none =>
      rw [found, Option.isSome_none] at initial
      rw [found, Option.isNone_none] at skip
      have fresh : ¬ (coordinator.initialDelivered = true ∧
          coordinator.accumulatedChanges.finalize.empty = true) := fun told => by
        rw [initial] at told
        cases told.1
      rw [Coordinator.deliver, if_neg fresh, if_pos (Or.inl skip)] at delivered
      obtain ⟨rfl, rfl⟩ := Prod.mk.inj delivered
      exact .initial found
  | some base =>
      rw [found, Option.isSome_some] at initial
      rw [found, Option.isNone_some] at skip
      by_cases nothing : coordinator.accumulatedChanges.finalize.empty = true
      · rw [Coordinator.deliver, if_pos ⟨initial, nothing⟩] at delivered
        obtain ⟨rfl, rfl⟩ := Prod.mk.inj delivered
        exact .nothing found nothing
      · have changes : ¬ (coordinator.skip = true ∨
            coordinator.accumulatedChanges.finalize.empty = true) := by
          rw [skip]
          exact fun some => some.elim nofun nothing
        rw [Coordinator.deliver, if_neg fun both => nothing both.2, if_neg changes] at delivered
        obtain ⟨rfl, rfl⟩ := Prod.mk.inj delivered
        exact .update found

/-- A delivery leaves the versions as they are. -/
theorem Delivers.frame {after : Coordinator β} {notification : Option Notification}
    (delivers : Delivers coordinator after notification) :
    after.latest = coordinator.latest ∧ after.realm = coordinator.realm ∧
      after.notifier = coordinator.notifier ∧ after.pending = coordinator.pending ∧
      after.accumulatedChanges = .none := by
  cases delivers with
  | nothing | initial | update => exact ⟨rfl, rfl, rfl, rfl, rfl⟩

/-- **After a delivery the observer knows** the collection that the notifier has seen. -/
theorem Coherent.known {after : Coordinator β} {notification : Option Notification}
    (coherent : coordinator.Coherent empty results)
    (delivers : Delivers coordinator after notification) :
    ∃ base, after.delivered = some base ∧
      results.items base = results.items coordinator.notifier.table := by
  cases delivers with
  | nothing delivered empty => exact ⟨_, delivered, (coherent.told _ delivered).items_eq empty⟩
  | initial | update => exact ⟨_, rfl, rfl⟩

/-- A delivery leaves the notifier coherent. -/
theorem Coherent.deliver {after : Coordinator β} {notification : Option Notification}
    (coherent : coordinator.Coherent empty results) (ran : coordinator.hasRun)
    (here : coordinator.realm.version = coordinator.notifier.version)
    (delivers : Delivers coordinator after notification) : after.Coherent empty results := by
  cases delivers with
  | nothing delivered empty =>
      refine ⟨coherent.pending, coherent.latest, coherent.bounded, coherent.realm,
        coherent.previousRows, coherent.initial, coherent.skip, coherent.ran,
        fun _ _ later => absurd here later.ne', fun base same => ?_⟩
      exact (coherent.told base same).unchanged empty
  | initial | update =>
      exact ⟨coherent.pending, coherent.latest, coherent.bounded, coherent.realm,
        coherent.previousRows, rfl, rfl, fun _ _ => ran, fun _ _ later => absurd here later.ne',
        fun base same => Option.some.inj same ▸ told_none results _⟩

end Coordinator

namespace Coordinator

variable {empty : β} {results : Results β} {coordinator before after : Coordinator β}
  {notification : Option Notification}

/-! ## What an event does -/

/-- What an event can do. -/
inductive Takes (empty : β) (results : Results β) (before : Coordinator β) :
    Event β → Coordinator β → Option Notification → Prop
  | commit {log : List (Instruction β)} {after : Coordinator β}
      (committed : before.commit empty log = some after) :
      Takes empty results before (.commit log) after none
  | run {count : Nat} {after : Coordinator β}
      (performed : before.run empty results count = some after) :
      Takes empty results before (.run count) after none
  | still : Takes empty results before .notify before none
  | advances (fresh : ¬ before.hasRun) :
      Takes empty results before .notify { before with realm := before.latest } none
  | discards (ran : before.hasRun) (behind : before.notifier.version < before.realm.version) :
      Takes empty results before .notify { before with accumulatedChanges := .none } none
  | delivers {event : Event β} {realm : Snapshot β} {after : Coordinator β}
      {notification : Option Notification} (notifies : event = .notify ∨ event = .refresh)
      (ran : before.hasRun)
      (here : realm = before.realm ∧ before.realm.version = before.notifier.version ∨
        realm = before.notifier)
      (delivered : { before with realm }.deliver = (after, notification)) :
      Takes empty results before event after notification
  | writes {log : List (Instruction β)} {begun after : Coordinator β}
      {notification : Option Notification} (ready : before.Ready)
      (delivered : { before with realm := before.notifier }.deliver = (begun, notification))
      (committed : begun.commit empty log = some after) :
      Takes empty results before (.write log) { after with realm := after.latest } notification

/-- **What an event can do.** -/
theorem takes_of_respond {event : Event β}
    (responded : before.respond empty results event = some (after, notification)) :
    Takes empty results before event after notification := by
  cases event with
  | commit log =>
      obtain ⟨state, committed, same⟩ := Option.map_eq_some_iff.mp responded
      obtain ⟨rfl, rfl⟩ := Prod.mk.inj same
      exact .commit committed
  | run count =>
      obtain ⟨state, performed, same⟩ := Option.map_eq_some_iff.mp responded
      obtain ⟨rfl, rfl⟩ := Prod.mk.inj same
      exact .run performed
  | notify =>
      have done : before.notify = (after, notification) := Option.some.inj responded
      rw [notify] at done
      by_cases newest : before.realm.version = before.latest.version
      · rw [if_pos newest] at done
        by_cases seen : before.hasRun ∧ before.notifier.version = before.realm.version
        · rw [if_pos seen] at done
          exact .delivers (Or.inl rfl) seen.1 (Or.inl ⟨rfl, seen.2.symm⟩) done
        · rw [if_neg seen] at done
          obtain ⟨rfl, rfl⟩ := Prod.mk.inj done
          exact .still
      · rw [if_neg newest] at done
        by_cases ran : before.hasRun
        · rw [if_pos ran] at done
          by_cases behind : before.notifier.version < before.realm.version
          · rw [if_pos behind] at done
            obtain ⟨rfl, rfl⟩ := Prod.mk.inj done
            exact .discards ran behind
          · rw [if_neg behind] at done
            by_cases here : before.notifier.version = before.realm.version
            · rw [if_pos here] at done
              exact .delivers (Or.inl rfl) ran (Or.inl ⟨rfl, here.symm⟩) done
            · rw [if_neg here] at done
              exact .delivers (Or.inl rfl) ran (Or.inr rfl) done
        · rw [if_neg ran] at done
          obtain ⟨rfl, rfl⟩ := Prod.mk.inj done
          exact .advances ran
  | refresh =>
      obtain ⟨ready, same⟩ := Option.ite_none_right_eq_some.mp responded
      exact .delivers (Or.inr rfl) ready.1 (Or.inr rfl) (Option.some.inj same)
  | write log =>
      obtain ⟨ready, same⟩ := Option.ite_none_right_eq_some.mp responded
      obtain ⟨state, committed, same⟩ := Option.map_eq_some_iff.mp same
      obtain ⟨rfl, rfl⟩ := Prod.mk.inj same
      exact .writes ready rfl committed

/-- A realm that advances to what the notifier has seen. -/
theorem Coherent.advance (coherent : coordinator.Coherent empty results) :
    Coherent empty results { coordinator with realm := coordinator.notifier } where
  pending := coherent.pending
  latest := coherent.latest
  bounded := coherent.latest ▸ Nat.le_add_right _ _
  realm _ := by
    rw [Nat.sub_self]
    rfl
  previousRows := coherent.previousRows
  initial := coherent.initial
  skip := coherent.skip
  ran := coherent.ran
  ahead _ _ later := absurd later (Nat.lt_irrefl _)
  told := coherent.told

/-- A delivery begins in a state whose realm has the version of the notifier. -/
theorem Coherent.delivering {realm : Snapshot β} (coherent : coordinator.Coherent empty results)
    (here : realm = coordinator.realm ∧ coordinator.realm.version = coordinator.notifier.version ∨
      realm = coordinator.notifier) :
    Coherent empty results { coordinator with realm } ∧
      realm.version = coordinator.notifier.version ∧ realm.table = coordinator.notifier.table := by
  rcases here with ⟨rfl, same⟩ | rfl
  · refine ⟨coherent, same, ?_⟩
    have table := coherent.realm same.ge
    rw [same, Nat.sub_self] at table
    exact (Option.some.inj table).symm
  · exact ⟨coherent.advance, rfl, rfl⟩

/-- **Every event keeps the state coherent.** -/
theorem Coherent.takes {event : Event β} (coherent : before.Coherent empty results)
    (takes : Takes empty results before event after notification) :
    after.Coherent empty results := by
  cases takes with
  | commit committed => exact coherent.commit committed
  | run performed => exact coherent.run performed
  | still => exact coherent
  | advances fresh =>
      have never : ∀ base, ¬ before.delivered = some base := fun base some =>
        fresh (coherent.ran base some)
      refine ⟨coherent.pending, coherent.latest, Nat.le_refl _, fun _ => ?_, coherent.previousRows,
        coherent.initial, coherent.skip, coherent.ran, fun base some => absurd some (never base),
        coherent.told⟩
      dsimp only
      rw [coherent.latest, Nat.add_sub_cancel_left, List.take_length]
      exact coherent.pending
  | discards ran behind =>
      refine ⟨coherent.pending, coherent.latest, coherent.bounded, coherent.realm,
        coherent.previousRows, coherent.initial, coherent.skip, coherent.ran,
        fun base some later => ⟨(coherent.ahead base some later).1, rfl⟩, fun base some => ?_⟩
      dsimp only
      rw [← (coherent.ahead base some behind).2]
      exact coherent.told base some
  | delivers notifies ran here delivered =>
      obtain ⟨middle, same, _⟩ := coherent.delivering here
      exact middle.deliver ran same (middle.delivers delivered)
  | @writes log begun committed notification ready delivered commits =>
      have delivers := coherent.advance.delivers delivered
      have told := coherent.advance.deliver ready.1 rfl delivers
      have written := told.commit commits
      obtain ⟨table, performed, rfl⟩ := Option.map_eq_some_iff.mp commits
      obtain ⟨latest, _, notifier, pending, nothing⟩ := delivers.frame
      have all : begun.pending.length = 0 := by
        have := told.latest
        have := ready.2
        rw [latest, notifier] at *
        dsimp only at *
        omega
      refine ⟨written.pending, written.latest, Nat.le_refl _, fun _ => ?_, written.previousRows,
        written.initial, written.skip, written.ran, fun base some _ => ⟨?_, nothing⟩, written.told⟩
      · have beyond := written.latest
        dsimp only at beyond ⊢
        rw [beyond, Nat.add_sub_cancel_left, List.take_length]
        exact written.pending
      · have beyond := written.latest
        dsimp only at beyond ⊢
        rw [beyond, List.length_append, all]
        rfl

end Coordinator

/-! ## What the observer is told -/

namespace Coordinator

variable {empty : β} {results : Results β} {coordinator before after : Coordinator β}

section Run

variable {snapshot : Snapshot β} {events : List (Event β)}

/-- The notifier is coherent in every run. -/
theorem Coherent.of_run
    (run : (system empty results).Run (start snapshot) events after) :
    after.Coherent empty results :=
  run.preserves (Coherent empty results)
    (fun _ _ _ coherent step => coherent.takes (takes_of_respond step.choose_spec))
    (coherent_start empty results snapshot)

/-- When the notifier has run for the latest version, it has seen the latest table. -/
theorem Coherent.table_of_ready (coherent : coordinator.Coherent empty results)
    (ready : coordinator.Ready) : coordinator.latest.table = coordinator.notifier.table := by
  have seen := coherent.latest
  have all : coordinator.pending = [] := List.length_eq_zero_iff.mp (by
    have := ready.2
    omega)
  have pending := coherent.pending
  rw [all] at pending
  exact (Option.some.inj pending).symm

/-- When the notifier has run for the latest version, a realm that is told so delivers. -/
theorem Coherent.notify_of_ready (coherent : coordinator.Coherent empty results)
    (ready : coordinator.Ready) :
    ∃ realm, (realm = coordinator.realm ∧
        coordinator.realm.version = coordinator.notifier.version ∨ realm = coordinator.notifier) ∧
      coordinator.notify = { coordinator with realm }.deliver := by
  obtain ⟨ran, seen⟩ := ready
  have bounded := coherent.bounded
  rw [notify]
  by_cases newest : coordinator.realm.version = coordinator.latest.version
  · rw [if_pos newest, if_pos ⟨ran, seen.trans newest.symm⟩]
    exact ⟨coordinator.realm, Or.inl ⟨rfl, newest.trans seen.symm⟩, rfl⟩
  · rw [if_neg newest, if_pos ran, if_neg (by omega), if_neg (by omega)]
    exact ⟨coordinator.notifier, Or.inr rfl, rfl⟩

/-- **A changed collection is told**, when the notifier has run for the latest version. -/
theorem Coherent.updates {base : Table β} (coherent : coordinator.Coherent empty results)
    (ready : coordinator.Ready) (known : coordinator.delivered = some base)
    (changed : results.items base ≠ results.items coordinator.latest.table) :
    ∃ after changes, coordinator.notify = (after, some (.update changes)) := by
  obtain ⟨realm, here, notified⟩ := coherent.notify_of_ready ready
  obtain ⟨middle, _⟩ := coherent.delivering here
  obtain ⟨after, notification, done⟩ :
      ∃ after notification, { coordinator with realm }.deliver = (after, notification) :=
        ⟨_, _, rfl⟩
  rw [notified, done]
  cases middle.delivers done with
  | nothing told empty =>
      have same := (middle.told _ told).items_eq empty
      rw [Option.some.inj (told.symm.trans known), ← coherent.table_of_ready ready] at same
      exact absurd same changed
  | initial fresh => exact absurd (known.symm.trans fresh) nofun
  | update => exact ⟨_, _, rfl⟩

/-- The table that the realm of the observer reads when an event notifies it: to write, it
advances to the latest one. -/
def tableRead (before after : Coordinator β) : Event β → Table β
  | .write _ => before.latest.table
  | .commit _ | .run _ | .notify | .refresh => after.realm.table

/-- What is told when there is something to deliver. The realm reads what the notifier has
seen. -/
theorem Coherent.tells {event : Event β} {notification : Notification}
    (coherent : before.Coherent empty results)
    (responded : before.respond empty results event = some (after, some notification)) :
    tableRead before after event = before.notifier.table ∧
      after.delivered = some (tableRead before after event) ∧
      match notification with
      | .initial => before.delivered = none
      | .update changes => ∃ base, before.delivered = some base ∧
          Tells results base (tableRead before after event) changes before.modified := by
  have told : ∀ {realm : Snapshot β} {told : Coordinator β},
      Coherent empty results { before with realm } →
      { before with realm }.deliver = (told, some notification) →
      told.delivered = some before.notifier.table ∧ told.realm = realm ∧
        match notification with
        | .initial => before.delivered = none
        | .update changes => ∃ base, before.delivered = some base ∧
            Tells results base before.notifier.table changes before.modified := by
    intro realm told middle delivered
    cases middle.delivers delivered with
    | initial fresh => exact ⟨rfl, rfl, fresh⟩
    | update known => exact ⟨rfl, rfl, _, known, (coherent.told _ known).tells⟩
  cases takes_of_respond responded with
  | delivers notifies ran here delivered =>
      obtain ⟨middle, _, table⟩ := coherent.delivering here
      obtain ⟨known, realm, tells⟩ := told middle delivered
      have same : tableRead before after event = before.notifier.table := by
        rcases notifies with rfl | rfl
        · exact (congrArg Snapshot.table realm).trans table
        · exact (congrArg Snapshot.table realm).trans table
      rw [same]
      exact ⟨rfl, known, tells⟩
  | writes ready delivered committed =>
      obtain ⟨known, _, tells⟩ := told coherent.advance delivered
      obtain ⟨table, performed, rfl⟩ := Option.map_eq_some_iff.mp committed
      rw [tableRead, coherent.table_of_ready ready]
      exact ⟨rfl, known, tells⟩

/-- When nothing is told, the notification before is still the last one. -/
theorem Coherent.delivered_eq {event : Event β} (coherent : before.Coherent empty results)
    (responded : before.respond empty results event = some (after, none)) :
    after.delivered = before.delivered := by
  have silent : ∀ {realm : Snapshot β} {told : Coordinator β},
      Coherent empty results { before with realm } →
      { before with realm }.deliver = (told, none) → told.delivered = before.delivered := by
    intro realm told middle delivered
    cases middle.delivers delivered
    rfl
  cases takes_of_respond responded with
  | commit committed =>
      obtain ⟨table, _, rfl⟩ := Option.map_eq_some_iff.mp committed
      rfl
  | run performed =>
      obtain ⟨reading, _, rfl⟩ := Option.map_eq_some_iff.mp performed
      rfl
  | still | advances | discards => rfl
  | delivers notifies ran here delivered => exact silent (coherent.delivering here).1 delivered
  | writes ready delivered committed =>
      have same := silent coherent.advance delivered
      obtain ⟨table, _, rfl⟩ := Option.map_eq_some_iff.mp committed
      exact same

/-- **Every notification is true.** The first one tells that there is a collection, and each
later one tells how the collection that the realm reads now came from the one at the
notification before, whatever was committed, read, discarded and merged in between. -/
theorem notification_tells (run : (system empty results).Run (start snapshot) events before)
    {event : Event β} {notification : Notification}
    (responded : before.respond empty results event = some (after, some notification)) :
    after.delivered = some (tableRead before after event) ∧
      match notification with
      | .initial => before.delivered = none
      | .update changes => ∃ base, before.delivered = some base ∧
          Tells results base (tableRead before after event) changes before.modified :=
  ((Coherent.of_run run).tells responded).2

/-- A row is inserted after the first notification. -/
theorem notification_tells_inserted :
    ∃ before after changes base,
      (system 0 Results.ascending).Run (start ⟨0, [], 0, nofun, List.nodup_nil⟩)
        [.run 0, .notify, .commit [.insertEmptyRows 0 1 Nat.one_pos], .run 1] before ∧
      before.respond 0 Results.ascending .notify = some (after, some (.update changes)) ∧
      before.delivered = some base ∧
      Tells Results.ascending base after.realm.table changes before.modified := by
  obtain ⟨before, base, run, ready, known, changed⟩ : ∃ before base,
      (system 0 Results.ascending).Run (start ⟨0, [], 0, nofun, List.nodup_nil⟩)
        [.run 0, .notify, .commit [.insertEmptyRows 0 1 Nat.one_pos], .run 1] before ∧
      before.Ready ∧ before.delivered = some base ∧
      Results.ascending.items base ≠ Results.ascending.items before.latest.table :=
    ⟨_, _, .cons ⟨_, rfl⟩ (.cons ⟨_, rfl⟩ (.cons ⟨_, rfl⟩ (.cons ⟨_, rfl⟩ (.nil _)))),
      ⟨rfl, rfl⟩, rfl, fun same => absurd (congrArg List.length same) (by decide)⟩
  obtain ⟨after, changes, notified⟩ := (Coherent.of_run run).updates ready known changed
  have responded : before.respond 0 Results.ascending .notify =
      some (after, some (.update changes)) :=
    congrArg some notified
  obtain ⟨_, base, known, tells⟩ := notification_tells run responded
  exact ⟨before, after, changes, base, run, responded, known, tells⟩

/-- The notifier runs over all that is pending. -/
theorem Coherent.runs (coherent : coordinator.Coherent empty results) :
    ∃ seen, coordinator.run empty results coordinator.pending.length = some seen ∧ seen.Ready ∧
      seen.latest = coordinator.latest := by
  obtain ⟨reading, read, _⟩ := coherent.reads coordinator.pending.length
  have ran : ∃ seen, coordinator.run empty results coordinator.pending.length = some seen ∧
      seen.hasRun = true ∧ seen.latest = coordinator.latest ∧
      seen.notifier.version = coordinator.notifier.version + coordinator.pending.length := by
    rw [Coordinator.run, read, List.take_length]
    exact ⟨_, rfl, rfl, rfl, rfl⟩
  obtain ⟨seen, ran, hasRun, latest, version⟩ := ran
  exact ⟨seen, ran, ⟨hasRun, by rw [latest, version, coherent.latest]⟩, latest⟩

/-- When the notifier has run for the latest version, a realm that is told so reads it, and the
observer knows it. -/
theorem Coherent.notified (coherent : coordinator.Coherent empty results)
    (ready : coordinator.Ready) :
    ∃ after notification base, coordinator.notify = (after, notification) ∧
      after.latest = coordinator.latest ∧ after.realm.version = coordinator.latest.version ∧
      after.realm.table = coordinator.latest.table ∧ after.delivered = some base ∧
      results.items base = results.items coordinator.latest.table := by
  obtain ⟨realm, here, notified⟩ := coherent.notify_of_ready ready
  obtain ⟨middle, version, table⟩ := coherent.delivering here
  obtain ⟨after, notification, done⟩ :
      ∃ after notification, { coordinator with realm }.deliver = (after, notification) :=
        ⟨_, _, rfl⟩
  have delivers := middle.delivers done
  obtain ⟨base, delivered, items⟩ := middle.known delivers
  obtain ⟨latest, reads, _⟩ := delivers.frame
  have same := coherent.table_of_ready ready
  refine ⟨after, notification, base, notified.trans done, latest, ?_, ?_, delivered, same ▸ items⟩
  · rw [reads]
    exact version.trans ready.2
  · rw [reads, same]
    exact table

/-- The observer knows the latest collection, and there is nothing to tell. -/
structure CaughtUp (coordinator : Coordinator β) : Prop where
  ready : coordinator.Ready
  realm : coordinator.realm.version = coordinator.latest.version
  nothing : coordinator.accumulatedChanges.finalize.empty = true
  known : coordinator.delivered.isSome

/-- The notifier runs over transactions without instructions. -/
theorem run_of_nil {count : Nat} (ran : coordinator.hasRun = true)
    (none : (coordinator.pending.take count).flatten = []) :
    coordinator.run empty results count = some { coordinator with
      notifier := ⟨coordinator.notifier.version + (coordinator.pending.take count).length,
        coordinator.notifier.table⟩
      pending := coordinator.pending.drop count } := by
  rw [run, none]
  simp only [Reading.read, Reading.start, Option.map_some, List.isEmpty_nil, not_true_eq_false,
    and_false, and_true, if_false, merge_none, List.nil_append, ran, if_true]

/-- A realm that is told so advances without a notification, when there is nothing to tell. -/
theorem notify_of_nothing (ran : coordinator.hasRun = true)
    (behind : coordinator.realm.version < coordinator.notifier.version)
    (seen : coordinator.notifier.version = coordinator.latest.version)
    (told : coordinator.initialDelivered = true)
    (nothing : coordinator.accumulatedChanges.finalize.empty = true) :
    coordinator.notify = ({ coordinator with
      realm := coordinator.notifier
      accumulatedChanges := .none }, none) := by
  rw [notify, if_neg (by omega), if_pos ran, if_neg (by omega), if_neg (by omega), deliver,
    if_pos ⟨told, nothing⟩]

/-- **A transaction without instructions is not told** to an observer that has caught up. -/
theorem Coherent.silent (coherent : coordinator.Coherent empty results)
    (caught : coordinator.CaughtUp) :
    ∃ committed seen after, coordinator.commit empty [] = some committed ∧
      committed.run empty results committed.pending.length = some seen ∧
      seen.notify = (after, none) ∧ after.realm.version = coordinator.latest.version + 1 := by
  have all : coordinator.pending = [] := by
    have := coherent.latest
    have := caught.ready.2
    exact List.length_eq_zero_iff.mp (by omega)
  have here := caught.realm
  have seen := caught.ready.2
  obtain ⟨committed, done, pending, frame⟩ : ∃ committed,
      coordinator.commit empty [] = some committed ∧ committed.pending = [[]] ∧
        committed = { coordinator with
          latest := ⟨coordinator.latest.version + 1, coordinator.latest.table⟩
          pending := coordinator.pending ++ [[]] } := by
    refine ⟨_, rfl, ?_, rfl⟩
    dsimp only
    rw [all]
    rfl
  have ran := @run_of_nil _ empty results committed committed.pending.length
    (frame ▸ caught.ready.1) (by rw [pending]; rfl)
  refine ⟨committed, _, _, done, ran, notify_of_nothing ?_ ?_ ?_ ?_ ?_, ?_⟩
  · exact frame ▸ caught.ready.1
  · rw [pending, frame]
    exact Nat.lt_succ_of_le (here.trans seen.symm).le
  · rw [pending, frame]
    exact congrArg (· + 1) seen
  · exact frame ▸ coherent.initial.trans caught.known
  · exact frame ▸ caught.nothing
  · rw [pending, frame]
    exact congrArg (· + 1) seen

/-- **The observer can always catch up**: once the notifier has run over what is pending and
the realm is told that there may be something new, the observer knows the latest rows of
the collection with their values, and the realm reads them. -/
theorem catches_up (run : (system empty results).Run (start snapshot) events before) :
    ∃ seen after notification base,
      before.respond empty results (.run before.pending.length) = some (seen, none) ∧
      seen.respond empty results .notify = some (after, notification) ∧
      after.realm.table = before.latest.table ∧ after.delivered = some base ∧
      results.items base = results.items before.latest.table := by
  have coherent := Coherent.of_run run
  obtain ⟨seen, ran, ready, latest⟩ := coherent.runs
  obtain ⟨after, notification, base, notified, _, _, table, delivered, items⟩ :=
    (coherent.run ran).notified ready
  refine ⟨seen, after, notification, base, ?_, congrArg some notified, latest ▸ table, delivered,
    latest ▸ items⟩
  rw [respond, ran, Option.map_some]

/-- A row has been inserted that the notifier has not seen. -/
theorem catches_up_inserted :
    ∃ before seen after notification base,
      (system 0 Results.ascending).Run (start ⟨0, [], 0, nofun, List.nodup_nil⟩)
        [.commit [.insertEmptyRows 0 1 Nat.one_pos]] before ∧
      before.respond 0 Results.ascending (.run 1) = some (seen, none) ∧
      seen.respond 0 Results.ascending .notify = some (after, notification) ∧
      after.delivered = some base ∧ (Results.ascending.items base).length = 1 := by
  obtain ⟨before, run, pending, rows⟩ : ∃ before,
      (system 0 Results.ascending).Run (start ⟨0, [], 0, nofun, List.nodup_nil⟩)
        [.commit [.insertEmptyRows 0 1 Nat.one_pos]] before ∧
      before.pending.length = 1 ∧ (Results.ascending.items before.latest.table).length = 1 :=
    ⟨_, .cons ⟨_, rfl⟩ (.nil _), rfl, rfl⟩
  obtain ⟨seen, after, notification, base, ran, notified, _, known, same⟩ := catches_up run
  exact ⟨before, seen, after, notification, base, run, pending ▸ ran, notified, known, same ▸ rows⟩

end Run

end Coordinator

end EventTalks.Realm

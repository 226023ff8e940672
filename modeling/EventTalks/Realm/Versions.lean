import EventTalks.Realm.Coordinator

/-! # What holds of the table at each version

Transactions follow each other, and every party of the coordinator sees the table at some
version. When a property of the table at each version is kept by every transaction, it holds
of whatever a party sees: the writers, the notifier after any number of the transactions that
it has not seen, the realm of the observer, and the observer at the last notification
(`EventTalks.Realm.Coordinator.Versions.takes`).
-/

namespace EventTalks.Realm.Coordinator

variable {β : Type*} {empty : β} {results : Results β} {property later : Nat → Table β → Prop}
  {coordinator before after : Coordinator β} {notification : Option Notification}

/-- The log of the transaction that an event commits. -/
def Event.log? : Event β → Option (List (Instruction β))
  | .commit log | .write log => some log
  | .run _ | .notify | .refresh => none

/-- A property holds of the table at each version that is seen, and of those to come. -/
structure Versions (empty : β) (property : Nat → Table β → Prop) (coordinator : Coordinator β) :
    Prop where
  pending : ∀ count ≤ coordinator.pending.length, ∀ table,
    coordinator.notifier.table.commits empty (coordinator.pending.take count) = some table →
      property (coordinator.notifier.version + count) table
  realm : property coordinator.realm.version coordinator.realm.table
  delivered : ∀ base, coordinator.delivered = some base →
    ∃ version ≤ coordinator.notifier.version, property version base

/-- An event makes a new version when it commits a transaction, and only then. -/
theorem Coherent.latest_of_takes {event : Event β} (coherent : before.Coherent empty results)
    (takes : Takes empty results before event after notification) :
    match event.log? with
    | none => after.latest = before.latest
    | some _ => after.latest.version = before.latest.version + 1 := by
  cases takes with
  | commit committed =>
      obtain ⟨table, _, rfl⟩ := Option.map_eq_some_iff.mp committed
      rfl
  | run performed =>
      obtain ⟨reading, _, rfl⟩ := Option.map_eq_some_iff.mp performed
      rfl
  | still | advances | discards => rfl
  | delivers notifies ran here delivered =>
      have same : after.latest = before.latest :=
        ((coherent.delivering here).1.delivers delivered).frame.1
      rcases notifies with rfl | rfl
      · exact same
      · exact same
  | writes ready delivered committed =>
      have latest := (coherent.advance.delivers delivered).frame.1
      obtain ⟨table, _, rfl⟩ := Option.map_eq_some_iff.mp committed
      exact congrArg (fun snapshot => snapshot.version + 1) latest

namespace Versions

theorem start {snapshot : Snapshot β} (holds : property snapshot.version snapshot.table) :
    Versions empty property (.start snapshot) where
  pending count bound table committed := by
    obtain rfl := Nat.le_zero.mp bound
    obtain rfl := Option.some.inj committed
    exact holds
  realm := holds
  delivered := nofun

theorem notifier (versions : Versions empty property coordinator) :
    property coordinator.notifier.version coordinator.notifier.table :=
  versions.pending 0 (Nat.zero_le _) _ rfl

theorem latest (versions : Versions empty property coordinator)
    (coherent : coordinator.Coherent empty results) :
    property coordinator.latest.version coordinator.latest.table := by
  rw [coherent.latest]
  apply versions.pending _ (Nat.le_refl _)
  rw [List.take_length]
  exact coherent.pending

/-- A property of the versions so far. -/
theorem mono (versions : Versions empty property coordinator)
    (coherent : coordinator.Coherent empty results)
    (next : ∀ version ≤ coordinator.latest.version, ∀ table,
      property version table → later version table) :
    Versions empty later coordinator where
  pending count bound table committed := by
    apply next
    · rw [coherent.latest]
      exact Nat.add_le_add_left bound _
    · exact versions.pending count bound table committed
  realm := next _ coherent.bounded _ versions.realm
  delivered base delivered := by
    obtain ⟨version, bound, holds⟩ := versions.delivered base delivered
    refine ⟨version, bound, next version (bound.trans ?_) base holds⟩
    rw [coherent.latest]
    exact Nat.le_add_right _ _

theorem commit {log : List (Instruction β)} (versions : Versions empty property coordinator)
    (coherent : coordinator.Coherent empty results)
    (next : ∀ table, coordinator.latest.table.commit empty log = some table →
      property (coordinator.latest.version + 1) table)
    (committed : coordinator.commit empty log = some after) :
    Versions empty property after ∧ property after.latest.version after.latest.table := by
  obtain ⟨table, performed, rfl⟩ := Option.map_eq_some_iff.mp committed
  refine ⟨⟨fun count bound reached commits => ?_, versions.realm, versions.delivered⟩,
    next table performed⟩
  dsimp only at bound commits ⊢
  rw [List.length_append, List.length_singleton] at bound
  by_cases seen : count ≤ coordinator.pending.length
  · rw [List.take_append_of_le_length seen] at commits
    exact versions.pending count seen reached commits
  · have last : count = coordinator.pending.length + 1 := by omega
    rw [List.take_of_length_le (by rw [List.length_append, List.length_singleton, last]),
      Table.commits_append, coherent.pending, Option.bind_some, Table.commits, List.foldlM_cons,
      performed] at commits
    obtain rfl := Option.some.inj commits
    rw [last, ← Nat.add_assoc, ← coherent.latest]
    exact next table performed

theorem run {count : Nat} (versions : Versions empty property coordinator)
    (coherent : coordinator.Coherent empty results)
    (performed : coordinator.run empty results count = some after) :
    Versions empty property after := by
  obtain ⟨reading, read, _, committed, _⟩ := coherent.reads count
  rw [Coordinator.run, read, Option.map_some] at performed
  obtain rfl := Option.some.inj performed
  refine ⟨fun more bound table commits => ?_, versions.realm, fun base delivered => ?_⟩
  · dsimp only at bound commits ⊢
    have joined : coordinator.pending.take ((coordinator.pending.take count).length + more) =
        coordinator.pending.take count ++ (coordinator.pending.drop count).take more := by
      rw [take_eq_append (Nat.le_add_right _ _), Nat.add_sub_cancel_left]
    rw [Nat.add_assoc]
    apply versions.pending
    · rw [List.length_take, List.length_drop] at *
      omega
    · rw [joined, Table.commits_append, committed]
      exact commits
  · obtain ⟨version, seen, holds⟩ := versions.delivered base delivered
    exact ⟨version, seen.trans (Nat.le_add_right _ _), holds⟩

/-- The realm advances to a version that is seen. -/
theorem atRealm {realm : Snapshot β} (versions : Versions empty property coordinator)
    (holds : property realm.version realm.table) :
    Versions empty property { coordinator with realm } :=
  ⟨versions.pending, holds, versions.delivered⟩

theorem delivers (versions : Versions empty property coordinator)
    (delivers : Delivers coordinator after notification) : Versions empty property after := by
  cases delivers with
  | nothing => exact ⟨versions.pending, versions.realm, versions.delivered⟩
  | initial | update =>
      refine ⟨versions.pending, versions.realm, fun base same => ?_⟩
      exact Option.some.inj same ▸ ⟨_, Nat.le_refl _, versions.notifier⟩

/-- **Every event** keeps a property that its transaction keeps. -/
theorem takes {event : Event β} (versions : Versions empty property before)
    (coherent : before.Coherent empty results)
    (next : ∀ log table, event.log? = some log → before.latest.table.commit empty log = some table →
      property (before.latest.version + 1) table)
    (takes : Takes empty results before event after notification) :
    Versions empty property after := by
  cases takes with
  | commit committed => exact (versions.commit coherent (fun table => next _ table rfl) committed).1
  | run performed => exact versions.run coherent performed
  | still => exact versions
  | advances => exact versions.atRealm (versions.latest coherent)
  | discards => exact ⟨versions.pending, versions.realm, versions.delivered⟩
  | delivers notifies ran here delivered =>
      obtain ⟨middle, _⟩ := coherent.delivering here
      refine (versions.atRealm ?_).delivers (middle.delivers delivered)
      rcases here with ⟨rfl, _⟩ | rfl
      · exact versions.realm
      · exact versions.notifier
  | writes ready delivered committed =>
      have delivers := coherent.advance.delivers delivered
      have told := coherent.advance.deliver ready.1 rfl delivers
      have latest : _ = before.latest := delivers.frame.1
      have begun := (versions.atRealm versions.notifier).delivers delivers
      have written := begun.commit told (latest ▸ fun table => next _ table rfl) committed
      exact written.1.atRealm written.2

end Versions

end EventTalks.Realm.Coordinator

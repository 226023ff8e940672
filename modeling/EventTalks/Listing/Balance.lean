import EventTalks.Listing.Screen

/-! # The batches of the listing

The number of rows that the table remembers, the number of talks at the last notification
and the number of talks of the state's query are three numbers, and refreshes and
deletions move the last one alone. A batch is made right after a notification has put the
observed query into the state, and the table has read its rows at every notification: so
the edits of a change set fit what the table remembers and what it reads
(`EventTalks.Listing.batches_balance`).
-/

namespace EventTalks.Listing

open Foundation

/-- When an event can happen, with no more about a change set than its counts and the
places of its indices. Writes are seen without a notification, or before it comes. -/
def Screen.Delivered (screen : Screen) : Event → Prop
  | .initial _ => screen.observing ∧ screen.observed = none
  | .update store edits _ => screen.observing ∧ ∃ old, screen.observed = some old ∧
      edits.Balanced old.length (Query.byDateCreated.identifiers store).length
  | .error => screen.observing
  | .reloadData | .written _ => True
  | .cellForRowAt row | .didSelectRowAt row | .commitDelete row _ => row < screen.rows.length

/-- The screen under events in any order, as far as change sets are delivered so. -/
def delivering : System Screen Event where
  step before event after :=
    before.Delivered event ∧ ∃ effect, before.respond event = .ok (after, effect)

/-- The table remembers as many rows as the last notification had talks. -/
def Screen.Remembers (screen : Screen) : Prop :=
  screen.rows.length = (screen.observed.getD []).length

/-- **Every event leaves the count remembered** that of the last notification. -/
theorem Screen.Remembers.respond {screen after : Screen} {event : Event} {effect : Effect}
    (remembers : screen.Remembers) (responded : screen.respond event = .ok (after, effect)) :
    after.Remembers := by
  cases event with
  | initial store =>
      obtain ⟨rfl, _⟩ := Prod.mk.inj (Except.ok.inj responded)
      rw [Screen.initial, Screen.reloadTable, Screen.numberOfRows_notified]
      exact List.length_replicate
  | update store edits isVisible =>
      obtain ⟨screen, updated, same⟩ := map_eq_ok.mp responded
      obtain ⟨rfl, _⟩ := Prod.mk.inj same
      obtain ⟨rows, rfl, rfl | rfl⟩ := Screen.update_eq_ok updated
      · exact List.length_replicate
      · exact Edits.length_apply _ _ _ _
  | error | reloadData | written =>
      obtain ⟨rfl, _⟩ := Prod.mk.inj (Except.ok.inj responded)
      exact remembers
  | cellForRowAt row =>
      obtain ⟨screen, rendered, same⟩ := map_eq_ok.mp responded
      obtain ⟨rfl, _⟩ := Prod.mk.inj same
      obtain ⟨talks, talk, _, _, rfl⟩ := Screen.cellForRowAt_eq_ok rendered
      exact List.length_set.trans remembers
  | didSelectRowAt row =>
      obtain ⟨opened, _, same⟩ := map_eq_ok.mp responded
      obtain ⟨rfl, _⟩ := Prod.mk.inj same
      exact remembers
  | commitDelete row commits =>
      rcases Screen.commitDelete_eq_ok responded with
        ⟨rfl, _⟩ | ⟨talks, talk, uuid, _, _, _, _, rfl⟩
      · exact remembers
      · exact remembers

/-- **A change set fits the table** that remembers the last notification. -/
theorem Screen.Remembers.balanced {screen : Screen} (remembers : screen.Remembers)
    {store : TalkStore} {edits : Edits} {isVisible : Bool}
    (delivered : screen.Delivered (.update store edits isVisible)) :
    edits.Balanced screen.rows.length (screen.notified store).numberOfRows := by
  obtain ⟨_, old, observed, balanced⟩ := delivered
  have rows : screen.rows.length = old.length := by
    rw [remembers, observed]
    rfl
  rw [rows, Screen.numberOfRows_notified]
  exact balanced

/-- **Every batch balances**, after any notifications, refreshes, deletions and changes of
visibility: the rows deleted and refreshed are among those that the table remembers, the
rows inserted among those that it reads at the end, and the counts agree; the batch is
accepted. -/
theorem batches_balance {store : TalkStore} {events : List Event} {before : Screen}
    (run : delivering.Run (viewDidLoad store) events before) {new : TalkStore} {edits : Edits}
    (delivered : before.Delivered (.update new edits true)) :
    edits.Balanced before.rows.length (before.notified new).numberOfRows ∧
      ∃ after, before.update new edits true = .ok after := by
  have remembers := run.preserves Screen.Remembers
    (fun _ _ _ remembers step => remembers.respond step.2.choose_spec) rfl
  have balanced := remembers.balanced delivered
  refine ⟨balanced, ?_⟩
  have fits : edits.Balanced (before.notified new).rows.length (before.notified new).numberOfRows :=
    balanced
  rw [Screen.update, if_pos rfl, Screen.endUpdates, if_pos fits]
  exact ⟨_, rfl⟩

/-- A swipe and a refresh come before the notification of the swipe. -/
theorem batches_balance_swiped :
    ∃ before, delivering.Run (viewDidLoad twoTalks)
        [.initial twoTalks, .commitDelete 0 true, .reloadData] before ∧
      (⟨[0], [], []⟩ : Edits).Balanced before.rows.length
        (before.notified ⟨[talkAt 1], by decide⟩).numberOfRows := by
  have run : delivering.Run (viewDidLoad twoTalks)
      [.initial twoTalks, .commitDelete 0 true, .reloadData] _ :=
    .cons ⟨⟨rfl, rfl⟩, _, rfl⟩ (.cons ⟨Nat.two_pos, _, rfl⟩ (.cons ⟨trivial, _, rfl⟩ (.nil _)))
  exact ⟨_, run, (batches_balance run ⟨rfl, _, rfl, by decide⟩).1⟩

end EventTalks.Listing

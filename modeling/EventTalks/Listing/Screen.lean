import EventTalks.Model.Talk
import EventTalks.Foundation.Fallible
import EventTalks.Foundation.IndexedEdits
import EventTalks.Foundation.Run
import Mathlib.Data.List.Sort

/-! # The listing screen

The listing shows the talks of the store in a table. Its state holds a live query with
its own sort order; it is replaced when the observed query notifies a change, with the
newest talk first, and when the user pulls to refresh, with the talk modified longest ago
first. The table remembers its rows, and for each row the talk rendered there last; it
reads the number of rows again when it is reloaded and at the end of a batch of updates.
-/

namespace EventTalks

open Foundation

/-- A live query of all talks, named after its sort order. -/
inductive Query where
  | byDateCreated
  | byDateModified
deriving DecidableEq

namespace Query

/-- The talks of a query: the newest first, or the one modified longest ago first. -/
def talks : Query → TalkStore → List Talk
  | byDateCreated, store => store.rows.insertionSort fun first second =>
      second.dateCreated.nanoseconds ≤ first.dateCreated.nanoseconds
  | byDateModified, store => store.rows.insertionSort fun first second =>
      first.dateModified.nanoseconds ≤ second.dateModified.nanoseconds

theorem talks_perm (query : Query) (store : TalkStore) : (query.talks store).Perm store.rows := by
  cases query <;> exact List.perm_insertionSort _ _

/-- The identifiers of a query's talks, in its order. -/
def identifiers (query : Query) (store : TalkStore) : List String :=
  (query.talks store).map Talk.identifier

theorem identifiers_perm (query : Query) (store : TalkStore) :
    (query.identifiers store).Perm store.keys :=
  (query.talks_perm store).map _

end Query

namespace Listing

/-- The state of the controller. -/
inductive State where
  | empty
  | data (talks : Query)
  | error
deriving DecidableEq

/-- The state that shows a query. -/
def State.showing (talks : Query) (store : TalkStore) : State :=
  if (talks.talks store).isEmpty then .empty else .data talks

/-- The store, the controller and the table: the identifiers at the last notification,
whether more notifications can come, and the talk rendered last in each row. -/
structure Screen where
  store : TalkStore
  state : State
  rows : List (Option String) := []
  observed : Option (List String) := none
  observing : Bool := true

/-- Why the program stops. -/
inductive Trap where
  | fatalError
  | indexOutOfBounds
  | invalidUpdate
deriving DecidableEq

/-- What the user sees of a tap or a swipe: a talk is opened, or the deletion of a talk
is requested and the talk is deleted from the store. -/
inductive Effect where
  | nothing
  | opened (identifier : String)
  | deleted (request : UUID) (identifier : String)
deriving DecidableEq

namespace Screen

def numberOfRows (screen : Screen) : Nat :=
  match screen.state with
  | .data talks => (talks.talks screen.store).length
  | .empty | .error => 0

/-- The table reads its rows again; none is rendered yet. -/
def reloadTable (screen : Screen) : Screen :=
  { screen with rows := List.replicate screen.numberOfRows none }

/-- The table makes a batch of updates and reads the number of rows again. -/
def endUpdates (screen : Screen) (edits : Edits) : Except Trap Screen :=
  if edits.Balanced screen.rows.length screen.numberOfRows then
    .ok { screen with rows := edits.apply none screen.numberOfRows screen.rows }
  else .error .invalidUpdate

/-- Pull to refresh. The fetch it starts answers later. -/
def reloadData (screen : Screen) : Screen :=
  { screen with state := .showing .byDateModified screen.store }

/-- A notification arrives together with the store that it describes. -/
def notified (screen : Screen) (store : TalkStore) : Screen :=
  { screen with
    store
    state := .showing .byDateCreated store
    observed := some (Query.byDateCreated.identifiers store) }

def initial (screen : Screen) (store : TalkStore) : Screen :=
  (screen.notified store).reloadTable

def update (screen : Screen) (store : TalkStore) (edits : Edits) (isVisible : Bool) :
    Except Trap Screen :=
  if isVisible then (screen.notified store).endUpdates edits
  else .ok (screen.notified store).reloadTable

/-- The observer reports an error and is never called again. -/
def error (screen : Screen) : Screen := { screen with state := .error, observing := false }

/-- The talk at a row of a live query. -/
def talk (screen : Screen) (talks : Query) (row : Nat) : Except Trap Talk :=
  match (talks.talks screen.store)[row]? with
  | some talk => .ok talk
  | none => .error .indexOutOfBounds

def cellForRowAt (screen : Screen) (row : Nat) : Except Trap Screen :=
  match screen.state with
  | .data talks => do
      let talk ← screen.talk talks row
      return { screen with rows := screen.rows.set row (some talk.identifier) }
  | .empty | .error => .error .fatalError

def didSelectRowAt (screen : Screen) (row : Nat) : Except Trap Effect :=
  match screen.state with
  | .data talks => do
      let talk ← screen.talk talks row
      return .opened talk.identifier
  | .empty | .error => .ok .nothing

/-- The user commits a delete. The error of a local write that fails is dropped. A commit that
fails is taken as rolled back, so the store is as before; in the source the transaction is
left open, with the talk deleted in it. -/
def commitDelete (screen : Screen) (row : Nat) (commits : Bool) : Except Trap (Screen × Effect) :=
  match screen.state with
  | .data talks => do
      let talk ← screen.talk talks row
      match UUID.ofString? talk.identifier with
      | none => return (screen, .nothing)
      | some uuid =>
          return ({ screen with store :=
            if commits then talk.delete screen.store else screen.store },
            .deleted uuid talk.identifier)
  | .empty | .error => .ok (screen, .nothing)

end Screen

/-- The screen once its view has loaded: the observed query is shown, and then replaced
by the first refresh. -/
def viewDidLoad (store : TalkStore) : Screen :=
  Screen.reloadData { store, state := .showing .byDateCreated store }

/-- What can happen to the screen: notifications of the observed query, a refresh, a
write that nobody observes, and what the table asks for and reports. -/
inductive Event where
  | initial (store : TalkStore)
  | update (store : TalkStore) (edits : Edits) (isVisible : Bool)
  | error
  | reloadData
  | written (store : TalkStore)
  | cellForRowAt (row : Nat)
  | didSelectRowAt (row : Nat)
  | commitDelete (row : Nat) (commits : Bool)

/-- What an event does. -/
def Screen.respond (screen : Screen) : Event → Except Trap (Screen × Effect)
  | .initial store => .ok (screen.initial store, .nothing)
  | .update store edits isVisible => (screen.update store edits isVisible).map (·, .nothing)
  | .error => .ok (screen.error, .nothing)
  | .reloadData => .ok (screen.reloadData, .nothing)
  | .written store => .ok ({ screen with store }, .nothing)
  | .cellForRowAt row => (screen.cellForRowAt row).map (·, .nothing)
  | .didSelectRowAt row => (screen.didSelectRowAt row).map (screen, ·)
  | .commitDelete row commits => screen.commitDelete row commits

/-- When an event can happen. Notifications come in order, and an update brings the
edits from the collection of the notification before; the table asks for rows that it
remembers; without an observer a write is seen without a notification. -/
def Screen.Possible (screen : Screen) : Event → Prop
  | .initial _ => screen.observing ∧ screen.observed = none
  | .update store edits _ => screen.observing ∧ ∃ old, screen.observed = some old ∧
      edits.Describes old (Query.byDateCreated.identifiers store)
  | .error => screen.observing
  | .reloadData => True
  | .written _ => ¬ screen.observing
  | .cellForRowAt row | .didSelectRowAt row | .commitDelete row _ => row < screen.rows.length

/-- The screen under events in any order. -/
def system : System Screen Event where
  step before event after :=
    before.Possible event ∧ ∃ effect, before.respond event = .ok (after, effect)

namespace Screen

@[simp] theorem numberOfRows_notified (screen : Screen) (store : TalkStore) :
    (screen.notified store).numberOfRows = (Query.byDateCreated.identifiers store).length := by
  cases found : Query.byDateCreated.talks store <;>
    simp [numberOfRows, notified, State.showing, Query.identifiers, found]

section Inversion

variable {screen after : Screen} {row : Nat} {talk : Talk}

theorem talk_eq_ok {talks : Query} :
    screen.talk talks row = .ok talk ↔ (talks.talks screen.store)[row]? = some talk := by
  unfold Screen.talk
  cases (talks.talks screen.store)[row]? <;> simp

/-- Rendering a cell reads a talk of the state's query and changes that row only. -/
theorem cellForRowAt_eq_ok (rendered : screen.cellForRowAt row = .ok after) :
    ∃ talks talk, screen.state = .data talks ∧ screen.talk talks row = .ok talk ∧
      after = { screen with rows := screen.rows.set row (some talk.identifier) } := by
  unfold cellForRowAt at rendered
  cases shows : screen.state with
  | empty | error => simp [shows] at rendered
  | data talks =>
      rw [shows] at rendered
      obtain ⟨talk, reads, renders⟩ := bind_eq_ok.mp rendered
      exact ⟨talks, talk, rfl, reads, (Except.ok.inj renders).symm⟩

/-- A tap opens a talk of the state's query, or nothing. -/
theorem didSelectRowAt_eq_ok {effect : Effect} (tapped : screen.didSelectRowAt row = .ok effect) :
    effect = .nothing ∨ ∃ talks talk, screen.state = .data talks ∧
      screen.talk talks row = .ok talk ∧ effect = .opened talk.identifier := by
  unfold didSelectRowAt at tapped
  cases shows : screen.state with
  | empty | error => exact Or.inl (by simpa [shows] using tapped.symm)
  | data talks =>
      rw [shows] at tapped
      obtain ⟨talk, reads, opens⟩ := bind_eq_ok.mp tapped
      exact Or.inr ⟨talks, talk, rfl, reads, (Except.ok.inj opens).symm⟩

/-- A swipe does nothing, or deletes a talk of the state's query and requests just that. -/
theorem commitDelete_eq_ok {commits : Bool} {effect : Effect}
    (swiped : screen.commitDelete row commits = .ok (after, effect)) :
    (after = screen ∧ effect = .nothing) ∨ ∃ talks talk uuid, screen.state = .data talks ∧
      screen.talk talks row = .ok talk ∧ UUID.ofString? talk.identifier = some uuid ∧
      effect = .deleted uuid talk.identifier ∧
      after =
        { screen with store := if commits then talk.delete screen.store else screen.store } := by
  unfold commitDelete at swiped
  cases shows : screen.state with
  | empty | error =>
      rw [shows] at swiped
      obtain ⟨rfl, rfl⟩ := Prod.mk.inj (Except.ok.inj swiped)
      exact Or.inl ⟨rfl, rfl⟩
  | data talks =>
      rw [shows] at swiped
      obtain ⟨talk, reads, deletes⟩ := bind_eq_ok.mp swiped
      cases parsed : UUID.ofString? talk.identifier with
      | none =>
          rw [parsed] at deletes
          obtain ⟨rfl, rfl⟩ := Prod.mk.inj (Except.ok.inj deletes)
          exact Or.inl ⟨rfl, rfl⟩
      | some uuid =>
          rw [parsed] at deletes
          obtain ⟨rfl, rfl⟩ := Prod.mk.inj (Except.ok.inj deletes)
          exact Or.inr ⟨talks, talk, uuid, rfl, reads, parsed, rfl, rfl⟩

/-- An update shows the new collection; the table reloads, or makes the batch of edits. -/
theorem update_eq_ok {store : TalkStore} {edits : Edits} {isVisible : Bool}
    (updated : screen.update store edits isVisible = .ok after) :
    ∃ rows, after = { screen.notified store with rows } ∧
      (rows = List.replicate (Query.byDateCreated.identifiers store).length none ∨
        rows = edits.apply none (Query.byDateCreated.identifiers store).length screen.rows) := by
  unfold update endUpdates at updated
  split at updated
  · split at updated
    · refine ⟨_, (Except.ok.inj updated).symm, Or.inr ?_⟩
      rw [numberOfRows_notified]
      rfl
    · cases updated
  · refine ⟨_, (Except.ok.inj updated).symm, Or.inl ?_⟩
    rw [numberOfRows_notified]

end Inversion

end Screen

/-- What a step can do, by its event. -/
inductive Moved (before : Screen) : Event → Screen → Prop
  | initial (observing : before.observing) (store : TalkStore) :
      Moved before (.initial store)
        { before.notified store with
          rows := List.replicate (Query.byDateCreated.identifiers store).length none }
  | update {store : TalkStore} {edits : Edits} {isVisible : Bool} {old : List String}
      {rows : List (Option String)} (observing : before.observing)
      (observed : before.observed = some old)
      (describes : edits.Describes old (Query.byDateCreated.identifiers store))
      (read : rows = List.replicate (Query.byDateCreated.identifiers store).length none ∨
        rows = edits.apply none (Query.byDateCreated.identifiers store).length before.rows) :
      Moved before (.update store edits isVisible) { before.notified store with rows }
  | error : Moved before .error before.error
  | reloadData : Moved before .reloadData before.reloadData
  | written {store : TalkStore} (unobserved : ¬ before.observing) :
      Moved before (.written store) { before with store }
  | rendered {row : Nat} {talks : Query} {talk : Talk} (shows : before.state = .data talks)
      (reads : before.talk talks row = .ok talk) :
      Moved before (.cellForRowAt row)
        { before with rows := before.rows.set row (some talk.identifier) }
  | tapped (row : Nat) : Moved before (.didSelectRowAt row) before
  | kept (row : Nat) (commits : Bool) : Moved before (.commitDelete row commits) before
  | deleted {row : Nat} {talks : Query} {talk : Talk} (shows : before.state = .data talks)
      (reads : before.talk talks row = .ok talk) :
      Moved before (.commitDelete row true) { before with store := talk.delete before.store }

/-- **What a step can do.** -/
theorem moved_of_step {before after : Screen} {event : Event}
    (step : system.step before event after) : Moved before event after := by
  obtain ⟨possible, effect, responded⟩ := step
  cases event with
  | initial store =>
      obtain ⟨rfl, _⟩ := Prod.mk.inj (Except.ok.inj responded)
      rw [Screen.initial, Screen.reloadTable, Screen.numberOfRows_notified]
      exact .initial possible.1 store
  | update store edits isVisible =>
      obtain ⟨observing, old, observed, describes⟩ := possible
      obtain ⟨screen, updated, same⟩ := map_eq_ok.mp responded
      obtain ⟨rfl, _⟩ := Prod.mk.inj same
      obtain ⟨rows, rfl, read⟩ := Screen.update_eq_ok updated
      exact .update observing observed describes read
  | error =>
      obtain ⟨rfl, _⟩ := Prod.mk.inj (Except.ok.inj responded)
      exact .error
  | reloadData =>
      obtain ⟨rfl, _⟩ := Prod.mk.inj (Except.ok.inj responded)
      exact .reloadData
  | written store =>
      obtain ⟨rfl, _⟩ := Prod.mk.inj (Except.ok.inj responded)
      exact .written possible
  | cellForRowAt row =>
      obtain ⟨screen, rendered, same⟩ := map_eq_ok.mp responded
      obtain ⟨rfl, _⟩ := Prod.mk.inj same
      obtain ⟨talks, talk, shows, reads, rfl⟩ := Screen.cellForRowAt_eq_ok rendered
      exact .rendered shows reads
  | didSelectRowAt row =>
      obtain ⟨opened, tapped, same⟩ := map_eq_ok.mp responded
      obtain ⟨rfl, _⟩ := Prod.mk.inj same
      exact .tapped row
  | commitDelete row commits =>
      rcases Screen.commitDelete_eq_ok responded with
        ⟨rfl, _⟩ | ⟨talks, talk, uuid, shows, reads, _, _, rfl⟩
      · exact .kept row commits
      · cases commits with
        | false => exact .kept row false
        | true => exact .deleted shows reads

/-- A talk created and modified at a number of seconds, with that number as identifier. -/
def talkAt (number : Nat) : Talk where
  identifier := (UUID.ofNat number).uuidString
  name := none
  notes := none
  dueDate := none
  speakerName := none
  dateCreated := Date.ofSeconds number
  dateModified := Date.ofSeconds number

/-- The talks 1 and 2; the observed query lists 2 first, the refreshed one 1. -/
def twoTalks : TalkStore := ⟨[talkAt 1, talkAt 2], by decide⟩

end Listing

end EventTalks

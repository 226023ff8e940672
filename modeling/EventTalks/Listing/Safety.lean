import EventTalks.Listing.Screen

/-! # The data source of the listing

The table asks for any row that it remembers, whatever has happened to the store and the
state since. A request is answered without a trap in every run in which the observer
reports no error while the table has rows and the rows requested lie below the number of
rows that is left once the talks swiped away since the last notification are gone
(`EventTalks.Listing.never_traps`).
-/

namespace EventTalks.Listing

open Foundation

/-- How many talks of the last notification are no longer stored. -/
def Screen.swiped (screen : Screen) : Nat :=
  ((screen.observed.getD []).filter (· ∉ screen.store.keys)).length

/-- No error is reported while the table has rows. A cell is requested, and, while the
state has data, a row is tapped or swiped, only at rows that are left when the talks
swiped away since the last notification are gone. -/
def Careful (screen : Screen) : Event → Prop
  | .error => screen.rows = []
  | .cellForRowAt row => row + screen.swiped < screen.rows.length
  | .didSelectRowAt row | .commitDelete row _ =>
      ∀ talks, screen.state = .data talks → row + screen.swiped < screen.rows.length
  | .initial _ | .update _ _ _ | .reloadData | .written _ => True

/-- The observer is there, the stored talks are among the observed ones, and the state
has data unless nothing is stored. -/
structure Live (screen : Screen) : Prop where
  observing : screen.observing
  listed : ∀ identifier ∈ screen.store.keys, identifier ∈ screen.observed.getD []
  distinct : (screen.observed.getD []).Nodup
  state : (∃ talks, screen.state = .data talks) ∨ (screen.state = .empty ∧ screen.store.rows = [])

/-- The table remembers as many rows as the last notification listed, and while it has
rows the screen is live. -/
structure Tracked (screen : Screen) : Prop where
  rows : screen.rows.length = (screen.observed.getD []).length
  live : screen.rows ≠ [] → Live screen

theorem State.showing_cases (talks : Query) (store : TalkStore) :
    (∃ query, State.showing talks store = .data query) ∨
      (State.showing talks store = .empty ∧ store.rows = []) := by
  unfold State.showing
  split
  · rename_i nothing
    refine Or.inr ⟨rfl, List.eq_nil_of_length_eq_zero ?_⟩
    rw [← (talks.talks_perm store).length_eq, List.isEmpty_iff.mp nothing]
    rfl
  · exact Or.inl ⟨talks, rfl⟩

theorem live_notified {screen : Screen} (observing : screen.observing) (store : TalkStore)
    (rows : List (Option String)) : Live { screen.notified store with rows } where
  observing := observing
  listed _ member := (Query.byDateCreated.identifiers_perm store).mem_iff.mpr member
  distinct := (Query.byDateCreated.identifiers_perm store).nodup_iff.mpr store.unique
  state := State.showing_cases .byDateCreated store

/-- **Every event keeps the table tracked** when no error is reported while it has rows. -/
theorem Tracked.step {before after : Screen} {event : Event} (tracked : Tracked before)
    (careful : Careful before event) (step : system.step before event after) :
    Tracked after := by
  cases moved_of_step step with
  | initial observing store => exact ⟨List.length_replicate, fun _ => live_notified observing _ _⟩
  | @update store edits isVisible old rows observing observed describes read =>
      refine ⟨?_, fun _ => live_notified observing _ _⟩
      rcases read with rfl | rfl
      · exact List.length_replicate
      · exact Edits.length_apply _ _ _ _
  | error => exact ⟨tracked.rows, fun occupied => absurd careful occupied⟩
  | reloadData =>
      refine ⟨tracked.rows, fun occupied => ?_⟩
      have live := tracked.live occupied
      exact { live with state := State.showing_cases .byDateModified before.store }
  | written unobserved =>
      exact ⟨tracked.rows, fun occupied => absurd (tracked.live occupied).observing unobserved⟩
  | rendered shows reads =>
      refine ⟨by simpa using tracked.rows, fun occupied => ?_⟩
      have live := tracked.live fun vacant => occupied (by simp [vacant])
      exact ⟨live.observing, live.listed, live.distinct, live.state⟩
  | tapped | kept => exact tracked
  | @deleted row talks talk shows reads =>
      refine ⟨tracked.rows, fun occupied => ?_⟩
      have live := tracked.live occupied
      refine ⟨live.observing, fun identifier member => live.listed identifier ?_, live.distinct,
        Or.inl ⟨talks, shows⟩⟩
      exact ((before.store.mem_keys_remove _ _).mp member).1

/-- The stored talks and those swiped away make up the last notification. -/
theorem Live.length_rows_add_swiped {screen : Screen} (live : Live screen) :
    screen.store.rows.length + screen.swiped = (screen.observed.getD []).length := by
  have stored : ((screen.observed.getD []).filter (· ∈ screen.store.keys)).Perm
      screen.store.keys := by
    refine (List.perm_ext_iff_of_nodup (live.distinct.filter _) screen.store.unique).mpr
      fun identifier => ?_
    rw [List.mem_filter, decide_eq_true_eq]
    exact ⟨And.right, fun member => ⟨live.listed identifier member, member⟩⟩
  have length : screen.store.keys.length = screen.store.rows.length := List.length_map _
  rw [List.length_eq_length_filter_add (· ∈ screen.store.keys), stored.length_eq, length,
    Screen.swiped]
  simp

/-- **A row that is left can be read.** -/
theorem Tracked.talk_eq_ok {screen : Screen} (tracked : Tracked screen) (talks : Query) {row : Nat}
    (left : row + screen.swiped < screen.rows.length) :
    ∃ talk, screen.talk talks row = .ok talk := by
  have occupied : screen.rows ≠ [] := List.ne_nil_of_length_pos (by omega)
  have length := (tracked.live occupied).length_rows_add_swiped
  have rows := tracked.rows
  have inside : row < (talks.talks screen.store).length := by
    rw [(talks.talks_perm screen.store).length_eq]
    omega
  exact ⟨_, Screen.talk_eq_ok.mpr (List.getElem?_eq_getElem inside)⟩

/-- **A careful event does not trap.** -/
theorem Tracked.respond_eq_ok {screen : Screen} (tracked : Tracked screen) {event : Event}
    (possible : screen.Possible event) (careful : Careful screen event) :
    ∃ answer, screen.respond event = .ok answer := by
  cases event with
  | initial store | error | reloadData | written store => exact ⟨_, rfl⟩
  | update store edits isVisible =>
      obtain ⟨_, old, observed, describes⟩ := possible
      have rows : screen.rows.length = old.length := by
        rw [tracked.rows, observed]
        rfl
      have balanced : edits.Balanced (screen.notified store).rows.length
          (screen.notified store).numberOfRows := by
        rw [Screen.numberOfRows_notified, Screen.notified, rows]
        exact describes.balanced
      cases isVisible with
      | false => exact ⟨_, rfl⟩
      | true =>
          rw [Screen.respond, Screen.update, if_pos rfl, Screen.endUpdates, if_pos balanced]
          exact ⟨_, rfl⟩
  | cellForRowAt row =>
      have occupied : screen.rows ≠ [] := List.ne_nil_of_length_pos (Nat.zero_lt_of_lt possible)
      rcases (tracked.live occupied).state with ⟨talks, shows⟩ | ⟨_, vacant⟩
      · obtain ⟨talk, reads⟩ := tracked.talk_eq_ok talks careful
        rw [Screen.respond, Screen.cellForRowAt, shows]
        simp only [reads, bind, Except.bind]
        exact ⟨_, rfl⟩
      · have length := (tracked.live occupied).length_rows_add_swiped
        have rows := tracked.rows
        rw [vacant, List.length_nil] at length
        have left : row + screen.swiped < screen.rows.length := careful
        omega
  | didSelectRowAt row =>
      rw [Screen.respond, Screen.didSelectRowAt]
      cases shows : screen.state with
      | empty | error => exact ⟨_, rfl⟩
      | data talks =>
          obtain ⟨talk, reads⟩ := tracked.talk_eq_ok talks (careful talks shows)
          simp only [reads, bind, Except.bind]
          exact ⟨_, rfl⟩
  | commitDelete row commits =>
      rw [Screen.respond, Screen.commitDelete]
      cases shows : screen.state with
      | empty | error => exact ⟨_, rfl⟩
      | data talks =>
          obtain ⟨talk, reads⟩ := tracked.talk_eq_ok talks (careful talks shows)
          simp only [reads, bind, Except.bind]
          cases UUID.ofString? talk.identifier <;> exact ⟨_, rfl⟩

/-- **The data source never traps** in a run whose events are careful. -/
theorem never_traps {store : TalkStore} {events : List Event} {after : Screen}
    (run : (system.restrict Careful).Run (viewDidLoad store) events after) {event : Event}
    (possible : after.Possible event) (careful : Careful after event) :
    ∃ answer, after.respond event = .ok answer := by
  have initially : Tracked (viewDidLoad store) := ⟨rfl, fun occupied => absurd rfl occupied⟩
  have tracked := run.preserves Tracked
    (fun _ _ _ tracked step => tracked.step step.1 step.2) initially
  exact tracked.respond_eq_ok possible careful

/-- A swipe in the first row leaves the first row to be tapped. -/
theorem never_traps_swiped :
    ∃ screen, system.Run (viewDidLoad twoTalks)
        [.initial twoTalks, .commitDelete 0 true] screen ∧
      ∃ answer, screen.respond (.didSelectRowAt 0) = .ok answer := by
  have run : (system.restrict Careful).Run (viewDidLoad twoTalks)
      [.initial twoTalks, .commitDelete 0 true] _ :=
    .cons ⟨trivial, ⟨rfl, rfl⟩, _, rfl⟩
      (.cons ⟨fun _ _ => Nat.two_pos, Nat.two_pos, _, rfl⟩ (.nil _))
  refine ⟨_, run.of_restrict, never_traps run ?_ ?_⟩
  · exact Nat.two_pos
  · exact fun _ _ => Nat.one_lt_two

/-- **Two ways into a trap.** After an error report the table asks for a cell it remembers,
and the data source stops the program; after a swipe it reports a tap in the last row it
remembers, and the query is read past its end. -/
theorem respond_traps :
    (∃ screen, system.Run (viewDidLoad twoTalks) [.initial twoTalks, .error] screen ∧
        screen.Possible (.cellForRowAt 0) ∧
        screen.respond (.cellForRowAt 0) = .error .fatalError) ∧
      ∃ screen, system.Run (viewDidLoad twoTalks)
          [.initial twoTalks, .commitDelete 0 true] screen ∧
        screen.Possible (.didSelectRowAt 1) ∧
        screen.respond (.didSelectRowAt 1) = .error .indexOutOfBounds :=
  ⟨⟨_, .cons ⟨⟨rfl, rfl⟩, _, rfl⟩ (.cons ⟨rfl, _, rfl⟩ (.nil _)), Nat.two_pos, rfl⟩,
    ⟨_, .cons ⟨⟨rfl, rfl⟩, _, rfl⟩ (.cons ⟨Nat.two_pos, _, rfl⟩ (.nil _)), Nat.one_lt_two, rfl⟩⟩

end EventTalks.Listing

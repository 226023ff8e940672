import EventTalks.Listing.Screen

/-! # The listing acts on the talk it shows

A row shows the talk that the observed query listed there at its last notification
(`EventTalks.Listing.Faithful`). A tap or a swipe reads the live query of the state, which
can list another talk at the row: after a refresh into the other sort order, and after a
swipe whose notification is still to come. It acts on the talk shown in every run that
touches rows only while neither is the case (`EventTalks.Listing.acts_on_shown`).
-/

namespace EventTalks.Listing

open Foundation

/-- A rendered row shows a talk of a collection. -/
def Shows (cell : Option String) (listed : String) : Prop := ∀ shown ∈ cell, shown = listed

/-- The table corresponds row by row to the collection of the last notification. -/
def Faithful (screen : Screen) : Prop := List.Forall₂ Shows screen.rows (screen.observed.getD [])

/-- A row can be touched: the state's query has the order of the observed one, and down
to this row the observed query lists what it listed at its last notification. -/
def Settled (screen : Screen) (row : Nat) : Prop :=
  ∀ talks, screen.state = .data talks →
    talks.identifiers screen.store = Query.byDateCreated.identifiers screen.store ∧
      (Query.byDateCreated.identifiers screen.store).take (row + 1) =
        (screen.observed.getD []).take (row + 1)

/-- Rows are touched only while they are settled. -/
def Steady (screen : Screen) : Event → Prop
  | .cellForRowAt row | .didSelectRowAt row | .commitDelete row _ => Settled screen row
  | .initial _ | .update _ _ _ | .error | .reloadData | .written _ => True

/-- A tap opens the talk shown in the row; a swipe requests the deletion of the talk shown
in the row and, if the write commits, deletes it and no other. -/
def ActsOnShown (before : Screen) (event : Event) (after : Screen) : Prop :=
  ∀ effect, before.respond event = .ok (after, effect) →
    match event, effect with
    | .didSelectRowAt row, .opened identifier =>
        ∀ shown, before.rows[row]? = some (some shown) → identifier = shown
    | .commitDelete row commits, .deleted request identifier =>
        ∀ shown, before.rows[row]? = some (some shown) → identifier = shown ∧
          UUID.ofString? shown = some request ∧
          ∀ other, other ∈ after.store.keys ↔
            other ∈ before.store.keys ∧ (commits → other ≠ shown)
    | _, _ => True

theorem forall₂_shows_replicate (listed : List String) :
    List.Forall₂ Shows (List.replicate listed.length none) listed := by
  induction listed with
  | nil => exact .nil
  | cons identifier rest ih => exact .cons (by simp [Shows]) ih

/-- **In a settled row the state's query lists the observed talk.** -/
theorem Settled.observed {screen : Screen} {row : Nat} (settled : Settled screen row)
    {talks : Query} (shows : screen.state = .data talks) {talk : Talk}
    (reads : screen.talk talks row = .ok talk) :
    (screen.observed.getD [])[row]? = some talk.identifier := by
  obtain ⟨ordered, listed⟩ := settled talks shows
  have here : (talks.identifiers screen.store)[row]? = some talk.identifier := by
    rw [Query.identifiers, List.getElem?_map, Screen.talk_eq_ok.mp reads]
    rfl
  rw [ordered] at here
  have within := congrArg (·[row]?) listed
  simp only [List.getElem?_take_of_lt (Nat.lt_succ_self row)] at within
  rw [← within, here]

theorem Faithful.eq_observed {screen : Screen} (faithful : Faithful screen) {row : Nat}
    {shown listed : String} (renders : screen.rows[row]? = some (some shown))
    (reads : (screen.observed.getD [])[row]? = some listed) : listed = shown := by
  obtain ⟨inside, rendered⟩ := List.getElem?_eq_some_iff.mp renders
  obtain ⟨below, lists⟩ := List.getElem?_eq_some_iff.mp reads
  have shows := faithful.get inside below
  simp only [List.get_eq_getElem, rendered, lists] at shows
  exact (shows shown rfl).symm

/-- **Every event keeps the table faithful** when rows are touched while they are
settled. -/
theorem Faithful.step {before after : Screen} {event : Event} (faithful : Faithful before)
    (steady : Steady before event) (step : system.step before event after) :
    Faithful after := by
  have fits : ∀ listed, Shows none listed := by simp [Shows]
  cases moved_of_step step with
  | initial observing store => exact forall₂_shows_replicate _
  | update observing observed describes read =>
      rcases read with rfl | rfl
      · exact forall₂_shows_replicate _
      · rw [Faithful, observed] at faithful
        exact Edits.forall₂_apply describes fits faithful
  | error | reloadData | written | tapped | kept | deleted => exact faithful
  | @rendered row talks talk shows reads =>
      have lists := Settled.observed steady shows reads
      rw [Faithful, List.forall₂_iff_get] at faithful ⊢
      obtain ⟨length, cells⟩ := faithful
      refine ⟨by simpa using length, fun index inside below => ?_⟩
      simp only [List.get_eq_getElem, List.getElem_set]
      split
      · rename_i here
        subst here
        rw [List.getElem?_eq_getElem below, Option.some.injEq] at lists
        exact fun shown rendered => (Option.some.inj rendered).symm.trans lists.symm
      · exact cells index (by simpa using inside) below

/-- **A step touches the talk it shows.** -/
theorem actsOnShown_of_steady {before after : Screen} {event : Event} (faithful : Faithful before)
    (steady : Steady before event) : ActsOnShown before event after := by
  intro effect responded
  cases event with
  | initial store | update store edits isVisible | error | reloadData | written store
    | cellForRowAt row => trivial
  | didSelectRowAt row =>
      obtain ⟨opened, tapped, same⟩ := map_eq_ok.mp responded
      obtain ⟨_, rfl⟩ := Prod.mk.inj same
      rcases Screen.didSelectRowAt_eq_ok tapped with rfl | ⟨talks, talk, shows, reads, rfl⟩
      · trivial
      · exact fun shown renders =>
          faithful.eq_observed renders (Settled.observed steady shows reads)
  | commitDelete row commits =>
      rcases Screen.commitDelete_eq_ok responded with
        ⟨_, rfl⟩ | ⟨talks, talk, uuid, shows, reads, parsed, rfl, rfl⟩
      · trivial
      · intro shown renders
        have same := faithful.eq_observed renders (Settled.observed steady shows reads)
        refine ⟨same, same ▸ parsed, fun other => ?_⟩
        cases commits with
        | false => simp
        | true => simp [Talk.delete, KeyedTable.mem_keys_remove, same]

/-- **The listing acts on the talk it shows** in every run that touches rows only while
they are settled. -/
theorem acts_on_shown {store : TalkStore} {events : List Event} {after : Screen}
    (run : (system.restrict Steady).Run (viewDidLoad store) events after) :
    (system.every ActsOnShown).Run (viewDidLoad store) events after := by
  refine run.mono_of_invariant Faithful (fun before event after faithful step => ?_) .nil
  exact ⟨⟨actsOnShown_of_steady faithful step.1, step.2⟩, faithful.step step.1 step.2⟩

/-- Without a refresh a tap in the first row opens the newest talk. -/
theorem acts_on_shown_tap :
    ∃ after, (system.every ActsOnShown).Run (viewDidLoad twoTalks)
      [.initial twoTalks, .cellForRowAt 0, .didSelectRowAt 0] after := by
  have settled : ∀ rows, Settled { (viewDidLoad twoTalks).notified twoTalks with rows } 0 := by
    rintro rows _ ⟨⟩
    exact ⟨rfl, rfl⟩
  exact ⟨_, acts_on_shown (.cons ⟨trivial, ⟨rfl, rfl⟩, _, rfl⟩
    (.cons ⟨settled _, Nat.two_pos, _, rfl⟩ (.cons ⟨settled _, Nat.two_pos, _, rfl⟩ (.nil _))))⟩

/-- **A swipe after a refresh deletes a talk that the row does not show.** The row shows
talk 2, and talk 1 is deleted on the device and on the server. -/
theorem swipe_not_actsOnShown :
    ∃ screen after, system.Run (viewDidLoad twoTalks)
        [.initial twoTalks, .cellForRowAt 0, .reloadData] screen ∧
      system.step screen (.commitDelete 0 true) after ∧
      screen.rows[0]? = some (some (talkAt 2).identifier) ∧
      screen.respond (.commitDelete 0 true) =
        .ok (after, .deleted (UUID.ofNat 1) (talkAt 1).identifier) ∧
      ¬ ActsOnShown screen (.commitDelete 0 true) after := by
  refine ⟨_, _, .cons ⟨⟨rfl, rfl⟩, _, rfl⟩ (.cons ⟨Nat.two_pos, _, rfl⟩
    (.cons ⟨trivial, _, rfl⟩ (.nil _))), ⟨Nat.two_pos, _, rfl⟩, rfl, rfl, fun acts => ?_⟩
  exact absurd (acts _ rfl _ rfl).1 (by decide)

end EventTalks.Listing

import EventTalks.Detail.Handlers

/-! # The detail screen after its talk is gone

The talk can be deleted by the screen itself, by a swipe in the listing and by a response
that does not list it, while the screen stays up with its reference. A handler that then
reads or writes the talk stops the program, and nothing in the handlers looks whether the
talk is still there: the removed talk is left alone in exactly the runs whose events are
inert from the removal on (`EventTalks.Detail.untouched_iff`).
-/

namespace EventTalks.Detail

open Foundation Network

/-- The screen's talk is gone from the store. -/
def Removed (screen : Screen) : Prop :=
  ∃ accessor, screen.talk = some accessor ∧ accessor.attached = false

/-- The screen's talk is in the store. -/
def Current (screen : Screen) : Prop := ∃ accessor talk, Shows screen accessor talk

/-- A handler touches a talk that is gone: it reads or writes it, which is a fault, or it
calls delete on it, which is a fault or goes unnoticed. -/
def Touches (screen : Screen) : Except Fault Screen → Prop
  | .ok after => screen.strayDeletes < after.strayDeletes
  | .error fault => fault = .invalidated ∨ fault = .unmanaged

/-- A place holds an editable row. -/
def Screen.Editable (screen : Screen) (path : Option IndexPath) : Prop :=
  ∃ here found text placeholder, path = some here ∧
    screen.row? here = .ok (found, .editable text placeholder)

/-- An event that does not reach the talk: editing outside of editable rows, the end of
editing without an updater, a switch or a picker that is in no section, taps on rows
other than the delete row, on the date row only to close the picker, and what others do. -/
def Inert (screen : Screen) : Event → Prop
  | .editingChanged path _ _ => ¬ screen.Editable path
  | .didEndEditing path _ => screen.updater = none ∨ ¬ screen.Editable path
  | .toggleSwitch path isOn _ _ => ∀ here found, path = some here →
      screen.section? here.sectionIdx = .ok found → isOn = false ∧ found.rows = []
  | .datePickerChanged path _ _ => ∀ here found, path = some here →
      screen.section? here.sectionIdx = .ok found → found.rows.length ≤ 1
  | .textViewDidEndEditing _ _ => False
  | .didSelectRowAt path _ => ∀ found row, screen.row? path = .ok (found, row) → row ≠ .delete ∧
      ((∃ title date, row = .date title date) →
        ∃ date, found.rows.getLast? = some (.datePicker date))
  | .swiped | .fetched _ _ => True

/-- What an event leaves behind: no talk touched after it was gone, and a reference that is
current or whose talk is gone. -/
def Untroubled (screen : Screen) : Except Fault Screen → Prop
  | .ok after => after.strayDeletes = screen.strayDeletes ∧ (Current after ∨ Removed after)
  | .error fault => fault = .indexOutOfRange ∨ fault = .negativeCount

/-- What does not fault on the talk does not touch it. -/
theorem Untroubled.not_touches {screen : Screen} {after : Except Fault Screen}
    (untroubled : Untroubled screen after) : ¬ Touches screen after := by
  cases after with
  | ok next => exact fun touches => absurd untroubled.1 (Nat.ne_of_gt touches)
  | error fault => rcases untroubled with rfl | rfl <;> simp [Touches]

/-- A screen that refers to the same talk has it removed as well. -/
theorem Removed.congr {screen other : Screen} (removed : Removed screen)
    (refers : other.talk = screen.talk) : Removed other := by
  obtain ⟨accessor, shown, gone⟩ := removed
  exact ⟨accessor, refers.trans shown, gone⟩

/-- To send a delete leaves the reference as it is. -/
@[simp] theorem Screen.talk_sendDelete (screen : Screen) :
    screen.sendDelete.talk = screen.talk := by
  unfold Screen.sendDelete
  cases screen.updater <;> rfl

/-- To send a delete deletes no talk that is gone. -/
@[simp] theorem Screen.strayDeletes_sendDelete (screen : Screen) :
    screen.sendDelete.strayDeletes = screen.strayDeletes := by
  unfold Screen.sendDelete
  cases screen.updater <;> rfl

section Present

variable {screen : Screen} {accessor : Accessor} {talk : Talk}

/-- The delete row takes the talk away. -/
theorem Shows.untroubled_delete (shows : Shows screen accessor talk) {path : IndexPath}
    (now : Date) {found : Section} (reads : screen.row? path = .ok (found, .delete)) :
    Untroubled screen (screen.didSelectRowAt path now) := by
  simp only [Screen.didSelectRowAt, reads, Screen.deleteTalk, shows.refers, shows.managed,
    shows.attached, bind, Except.bind, not_true, ↓reduceIte]
  refine ⟨?_, Or.inr (Removed.congr ?_ (Screen.talk_sendDelete _))⟩
  · rw [Screen.strayDeletes_sendDelete]
  · exact ⟨_, rfl, rfl⟩

/-- A fetch does not fault on the talk. -/
theorem Shows.untroubled_fetched (shows : Shows screen accessor talk)
    (initials : Nat → Talk.Initial) (talks : List Response.Talk) :
    Untroubled screen (.ok (screen.fetched initials talks)) := by
  refine ⟨rfl, ?_⟩
  let store := TalksFetcher.fetchAllSuccess initials screen.store talks
  have refers : (screen.fetched initials talks).talk = some
      { accessor with attached := accessor.attached && accessor.identifier ∈ store.keys } := by
    simp only [Screen.fetched, shows.refers]
    rfl
  by_cases listed : accessor.identifier ∈ store.keys
  · obtain ⟨row, member, same⟩ := List.mem_map.mp listed
    refine Or.inl ⟨_, row, refers, ?_, shows.managed, KeyedTable.get?_eq_some.mpr ⟨member, same⟩⟩
    simp [shows.attached, listed]
  · exact Or.inr ⟨_, refers, by simp [listed]⟩

/-- **While the talk is there, no event touches a talk that is gone.** -/
theorem Shows.respond_untroubled (strings : L10n) (shows : Shows screen accessor talk)
    (event : Event) :
    Untroubled screen (screen.respond strings event) := by
  by_cases leaves : Leaves screen event
  · have answer := shows.respond strings leaves
    cases responded : screen.respond strings event with
    | error fault =>
        rw [responded] at answer
        exact answer
    | ok after =>
        rw [responded] at answer
        exact ⟨answer.strayDeletes, Or.inl ⟨_, _, answer.shows⟩⟩
  · cases event with
    | editingChanged | didEndEditing | toggleSwitch | datePickerChanged | textViewDidEndEditing =>
        exact absurd trivial leaves
    | didSelectRowAt path now =>
        simp only [Leaves, ne_eq, not_forall, not_not] at leaves
        obtain ⟨found, reads⟩ := leaves
        exact shows.untroubled_delete now reads
    | swiped =>
        simp only [Screen.respond, Screen.swiped, shows.refers]
        exact ⟨rfl, Or.inr ⟨_, rfl, rfl⟩⟩
    | fetched initials talks => exact shows.untroubled_fetched initials talks

end Present

section Gone

variable {strings : L10n} {screen : Screen} {accessor : Accessor}

/-- A talk that is gone cannot be read. -/
theorem read_of_gone (gone : accessor.attached = false) :
    screen.read accessor = .error .invalidated := by
  rw [Screen.read, gone]

/-- A screen whose talk is gone cannot read it. -/
theorem read?_of_gone (refers : screen.talk = some accessor) (gone : accessor.attached = false) :
    screen.read? = .error .invalidated := by
  simp only [Screen.read?, refers, read_of_gone gone]
  rfl

/-- A path is editable when its row is. -/
theorem editable_iff {path : IndexPath} {found : Section} {row : Row}
    (reads : screen.row? path = .ok (found, row)) :
    screen.Editable (some path) ↔ ∃ text placeholder, row = .editable text placeholder := by
  constructor
  · rintro ⟨_, _, text, placeholder, ⟨⟩, editable⟩
    rw [reads] at editable
    exact ⟨text, placeholder, (Prod.mk.inj (Except.ok.inj editable)).2⟩
  · intro editable
    rcases editable with ⟨text, placeholder, rfl⟩
    exact ⟨path, found, text, placeholder, rfl, reads⟩

/-- A path out of range is not editable. -/
theorem not_editable_of_error {path : IndexPath} {fault : Fault}
    (reads : screen.row? path = .error fault) : ¬ screen.Editable (some path) := by
  rintro ⟨_, _, _, _, ⟨⟩, editable⟩
  rw [reads] at editable
  cases editable

/-- No path is not editable. -/
theorem not_editable_none : ¬ screen.Editable none := by
  rintro ⟨_, _, _, _, ⟨⟩, _⟩

/-- What is said of the section that a path leads to is said of the one that is read. -/
theorem forall_section_of_ok {path : IndexPath} {found : Section} {good : Section → Prop}
    (reads : screen.section? path.sectionIdx = .ok found) :
    (∀ here other, some path = some here → screen.section? here.sectionIdx = .ok other →
      good other) ↔ good found := by
  constructor
  · intro each
    exact each path found rfl reads
  · intro meets here other same located
    obtain rfl := Option.some.inj same
    rw [reads] at located
    obtain rfl := Except.ok.inj located
    exact meets

/-- A path out of range has no section. -/
theorem forall_section_of_error {path : IndexPath} {fault : Fault} {good : Section → Prop}
    (reads : screen.section? path.sectionIdx = .error fault) :
    ∀ here other, some path = some here → screen.section? here.sectionIdx = .ok other →
      good other := by
  intro here other same located
  obtain rfl := Option.some.inj same
  rw [reads] at located
  cases located

/-- What an event does to a screen whose talk is gone: it touches the talk exactly when it
is not inert, and otherwise leaves the talk gone. -/
def Answers (screen : Screen) (event : Event) (after : Except Fault Screen) : Prop :=
  (Touches screen after ↔ ¬ Inert screen event) ∧
    ∀ next, after = .ok next → Removed next

/-- A handler that faults on the talk that is gone touched it. -/
theorem answers_of_touches {event : Event} {after : Except Fault Screen}
    (faults : after = .error .invalidated) (reaches : ¬ Inert screen event) :
    Answers screen event after := by
  subst faults
  exact ⟨⟨fun _ => reaches, fun _ => Or.inl rfl⟩, fun next same => by cases same⟩

/-- A handler that leaves the talk alone is inert. -/
theorem answers_of_inert {event : Event} {next : Screen} (removed : Removed screen)
    (refers : next.talk = screen.talk) (strays : next.strayDeletes = screen.strayDeletes)
    (inert : Inert screen event) : Answers screen event (.ok next) := by
  refine ⟨⟨fun touches => absurd strays (Nat.ne_of_gt touches), absurd inert⟩, ?_⟩
  rintro _ ⟨⟩
  exact removed.congr refers

/-- A handler that faults on an index is inert. -/
theorem answers_of_fault {event : Event} {fault : Fault}
    (index : fault = .indexOutOfRange ∨ fault = .negativeCount) (inert : Inert screen event) :
    Answers screen event (.error fault) := by
  refine ⟨⟨fun touches => ?_, absurd inert⟩, fun next same => by cases same⟩
  rcases index with rfl | rfl <;> simp [Touches] at touches

/-- Deleting a talk that is gone is a fault or goes unnoticed. -/
theorem answers_delete (refers : screen.talk = some accessor) (gone : accessor.attached = false)
    {event : Event} (reaches : ¬ Inert screen event) :
    Answers screen event (do
      let after ← screen.deleteTalk
      return after.sendDelete) := by
  simp only [Screen.deleteTalk, refers, gone]
  by_cases managed : accessor.managed
  · simp only [managed, not_true, ↓reduceIte, Bool.false_eq_true, bind, Except.bind]
    refine ⟨⟨fun _ => reaches, fun _ => ?_⟩, ?_⟩
    · change screen.strayDeletes < _
      rw [Screen.strayDeletes_sendDelete]
      exact Nat.lt_succ_self _
    · rintro _ ⟨⟩
      exact Removed.congr ⟨_, rfl, rfl⟩ (Screen.talk_sendDelete _)
  · simp only [managed, Bool.false_eq_true, not_false_eq_true, ↓reduceIte, bind, Except.bind]
    exact ⟨⟨fun _ => reaches, fun _ => Or.inr rfl⟩, fun next same => by cases same⟩

/-- Typing faults on the talk that is gone, or is inert. -/
theorem answers_editingChanged (refers : screen.talk = some accessor)
    (gone : accessor.attached = false) (path : Option IndexPath) (text : Option String)
    (commits : Bool) :
    Answers screen (.editingChanged path text commits)
      (screen.editingChanged strings path text commits) := by
  have removed : Removed screen := ⟨accessor, refers, gone⟩
  cases path with
  | none => exact answers_of_inert removed rfl rfl not_editable_none
  | some path =>
      cases reads : screen.row? path with
      | error fault =>
          simp only [Screen.editingChanged, reads, bind, Except.bind]
          exact answers_of_fault (Or.inl (row?_error reads)) (not_editable_of_error reads)
      | ok place =>
          obtain ⟨found, row⟩ := place
          have editable := editable_iff reads
          cases row with
          | editable shown placeholder =>
              rw [Screen.editingChanged_of_editable text commits reads, read?_of_gone refers gone]
              exact answers_of_touches rfl (not_not.mpr (editable.mpr ⟨_, _, rfl⟩))
          | text | switch | date | datePicker | notes | delete =>
              rw [Screen.editingChanged_of_foreign text commits reads (by simp)]
              exact answers_of_inert removed rfl rfl (mt editable.mp (by simp))

/-- The end of editing faults on the talk that is gone, or is inert. -/
theorem answers_didEndEditing (refers : screen.talk = some accessor)
    (gone : accessor.attached = false) (path : Option IndexPath) (text : Option String) :
    Answers screen (.didEndEditing path text) (screen.didEndEditing strings path text) := by
  have removed : Removed screen := ⟨accessor, refers, gone⟩
  cases path with
  | none => exact answers_of_inert removed rfl rfl (Or.inr not_editable_none)
  | some path =>
      cases reads : screen.row? path with
      | error fault =>
          simp only [Screen.didEndEditing, reads, bind, Except.bind]
          exact answers_of_fault (Or.inl (row?_error reads)) (Or.inr (not_editable_of_error reads))
      | ok place =>
          obtain ⟨found, row⟩ := place
          have editable := editable_iff reads
          cases row with
          | text | switch | date | datePicker | notes | delete =>
              rw [Screen.didEndEditing_of_foreign text reads (by simp)]
              exact answers_of_inert removed rfl rfl (Or.inr (mt editable.mp (by simp)))
          | editable shown placeholder =>
              rw [Screen.didEndEditing_of_editable text reads, Screen.sendUpdate_eq,
                Screen.read?_titled, read?_of_gone refers gone, Screen.updater_titled]
              rcases Option.eq_none_or_eq_some screen.updater with silent | ⟨uuid, updates⟩
              · rw [silent, if_neg (by simp)]
                exact answers_of_inert removed (by simp) (by simp) (Or.inl silent)
              · rw [updates, Option.isSome_some, if_pos rfl]
                refine answers_of_touches rfl fun inert => ?_
                rcases inert with silent | outside
                · cases updates.symm.trans silent
                · exact outside (editable.mpr ⟨_, _, rfl⟩)

/-- The switch faults on the talk that is gone, or is inert. -/
theorem answers_toggleSwitch (refers : screen.talk = some accessor)
    (gone : accessor.attached = false) (path : Option IndexPath) (isOn : Bool) (now : Date)
    (commits : Bool) :
    Answers screen (.toggleSwitch path isOn now commits)
      (screen.toggleSwitch strings path isOn now commits) := by
  have removed : Removed screen := ⟨accessor, refers, gone⟩
  cases path with
  | none => exact answers_of_inert removed rfl rfl fun _ _ same => by cases same
  | some path =>
      cases reads : screen.section? path.sectionIdx with
      | error fault =>
          simp only [Screen.toggleSwitch, reads, bind, Except.bind]
          exact answers_of_fault (Or.inl (section?_error reads)) (forall_section_of_error reads)
      | ok found =>
          have located := Screen.section?_eq_ok.mp reads
          cases isOn with
          | true =>
              rw [Screen.toggleSwitch_on now commits located, read?_of_gone refers gone]
              exact answers_of_touches rfl fun inert => by
                cases (inert path found rfl reads).1
          | false =>
              by_cases vacant : found.rows = []
              · simp only [Screen.toggleSwitch, reads, vacant, ok_bind, Bool.false_eq_true,
                  ↓reduceIte, List.isEmpty_nil]
                exact answers_of_fault (Or.inr rfl)
                  ((forall_section_of_ok reads).mpr ⟨rfl, vacant⟩)
              · rw [Screen.toggleSwitch_off now commits located vacant, read?_of_gone refers gone]
                exact answers_of_touches rfl fun inert => vacant (inert path found rfl reads).2

/-- The picker faults on the talk that is gone, or is inert. -/
theorem answers_datePickerChanged (refers : screen.talk = some accessor)
    (gone : accessor.attached = false) (path : Option IndexPath) (date : Date) (commits : Bool) :
    Answers screen (.datePickerChanged path date commits)
      (screen.datePickerChanged strings path date commits) := by
  have removed : Removed screen := ⟨accessor, refers, gone⟩
  cases path with
  | none => exact answers_of_inert removed rfl rfl fun _ _ same => by cases same
  | some path =>
      cases reads : screen.section? path.sectionIdx with
      | error fault =>
          simp only [Screen.datePickerChanged, reads, bind, Except.bind]
          exact answers_of_fault (Or.inl (section?_error reads)) (forall_section_of_error reads)
      | ok found =>
          have located := Screen.section?_eq_ok.mp reads
          by_cases enough : 1 < found.rows.length
          · rw [Screen.datePickerChanged_of_rows date commits located enough,
              read?_of_gone refers gone]
            exact answers_of_touches rfl fun inert =>
              Nat.not_le.mpr enough (inert path found rfl reads)
          · have short := Nat.not_lt.mp enough
            simp only [Screen.datePickerChanged, reads, ok_bind, short, ↓reduceIte]
            exact answers_of_fault (Or.inl rfl) ((forall_section_of_ok reads).mpr short)

/-- A tap faults on the talk that is gone, or is inert. -/
theorem answers_didSelectRowAt (refers : screen.talk = some accessor)
    (gone : accessor.attached = false) (path : IndexPath) (now : Date) :
    Answers screen (.didSelectRowAt path now) (screen.didSelectRowAt path now) := by
  have removed : Removed screen := ⟨accessor, refers, gone⟩
  unfold Screen.didSelectRowAt
  cases reads : screen.row? path with
  | error fault =>
      refine answers_of_fault (Or.inl (row?_error reads)) ?_
      intro found row located
      rw [reads] at located
      cases located
  | ok place =>
      obtain ⟨found, row⟩ := place
      have inert_iff : Inert screen (.didSelectRowAt path now) ↔ row ≠ .delete ∧
          ((∃ title date, row = .date title date) →
            ∃ date, found.rows.getLast? = some (.datePicker date)) := by
        refine ⟨fun inert => inert found row reads, fun stays other row located => ?_⟩
        rw [reads] at located
        obtain ⟨rfl, rfl⟩ := Prod.mk.inj (Except.ok.inj located)
        exact stays
      simp only [bind, Except.bind]
      cases row with
      | text | editable | switch | datePicker | notes =>
          exact answers_of_inert removed rfl rfl (inert_iff.mpr (by simp))
      | delete => exact answers_delete refers gone (mt inert_iff.mp (by simp))
      | date title date =>
          have located := (Screen.row?_eq_ok.mp reads).1
          by_cases last : ∃ picked, found.rows.getLast? = some (.datePicker picked)
          · obtain ⟨picked, closes⟩ := last
            simp only [Screen.toggleDatePicker_close now located closes]
            exact answers_of_inert removed rfl rfl (inert_iff.mpr ⟨by simp, fun _ => ⟨_, closes⟩⟩)
          · simp only [Screen.toggleDatePicker_open now located (not_exists.mp last),
              read?_of_gone refers gone]
            exact answers_of_touches rfl fun inert => last ((inert_iff.mp inert).2 ⟨_, _, rfl⟩)

/-- **With the talk gone, an event touches it exactly when it is not inert.** -/
theorem answers_respond (strings : L10n) (refers : screen.talk = some accessor)
    (gone : accessor.attached = false) (event : Event) :
    Answers screen event (screen.respond strings event) := by
  have removed : Removed screen := ⟨accessor, refers, gone⟩
  cases event with
  | editingChanged path text commits => exact answers_editingChanged refers gone path text commits
  | didEndEditing path text => exact answers_didEndEditing refers gone path text
  | toggleSwitch path isOn now commits =>
      exact answers_toggleSwitch refers gone path isOn now commits
  | datePickerChanged path date commits =>
      exact answers_datePickerChanged refers gone path date commits
  | textViewDidEndEditing text commits =>
      rw [Screen.respond, Screen.textViewDidEndEditing_eq, read?_of_gone refers gone]
      exact answers_of_touches rfl id
  | didSelectRowAt path now => exact answers_didSelectRowAt refers gone path now
  | swiped =>
      refine ⟨⟨fun touches => absurd touches ?_, fun reaches => absurd trivial reaches⟩, ?_⟩
      · simp [Screen.respond, Screen.swiped, refers, Touches]
      · rintro _ ⟨⟩
        exact ⟨{ accessor with attached := false }, by simp only [Screen.swiped, refers], rfl⟩
  | fetched initials talks =>
      refine ⟨⟨fun touches => absurd touches (Nat.lt_irrefl _), fun reaches =>
        absurd trivial reaches⟩,
        ?_⟩
      rintro _ ⟨⟩
      refine ⟨{ accessor with attached := false }, ?_, rfl⟩
      simp [Screen.fetched, refers, gone]

end Gone

/-- A step does not touch a talk that is gone. -/
def Untouched (before : Except Fault Screen) (_ : Event) (after : Except Fault Screen) : Prop :=
  ∀ screen, before = .ok screen → ¬ Touches screen after

/-- Once the talk is gone, events are inert. -/
def InertOnceRemoved (before : Except Fault Screen) (event : Event) : Prop :=
  ∀ screen, before = .ok screen → Removed screen → Inert screen event

/-- The screen's reference is current, or its talk is gone. -/
def Valid (state : Except Fault Screen) : Prop :=
  ∀ screen, state = .ok screen → Current screen ∨ Removed screen

/-- A screen that is opened shows its talk. -/
theorem valid_shown (strings : L10n) (store : TalkStore) (identifier : String) :
    Valid (shown strings store identifier) := by
  intro screen made
  obtain ⟨talk, _, shows⟩ := shows_shown made
  exact Or.inl ⟨_, talk, shows⟩

/-- **A step touches a talk that is gone** exactly when its event comes after the removal
and is not inert. -/
theorem untouched_iff_inert {strings : L10n} {before after : Except Fault Screen} {event : Event}
    (valid : Valid before) (step : (system strings).step before event after) :
    (Untouched before event after ↔ InertOnceRemoved before event) ∧ Valid after := by
  obtain ⟨screen, rfl, rfl⟩ := step
  rcases valid screen rfl with ⟨accessor, talk, shows⟩ | ⟨accessor, refers, gone⟩
  · have untroubled := shows.respond_untroubled strings event
    have present : ¬ Removed screen := by
      intro removed
      rcases removed with ⟨other, refers, gone⟩
      obtain rfl := Option.some.inj (shows.refers.symm.trans refers)
      exact absurd shows.attached (by simp [gone])
    refine ⟨iff_of_true ?_ ?_, fun next responded => ?_⟩
    · intro other same
      cases same
      exact untroubled.not_touches
    · intro other same removed
      cases same
      exact absurd removed present
    · rw [responded] at untroubled
      exact untroubled.2
  · obtain ⟨touches_iff, stays⟩ := answers_respond strings refers gone event
    refine ⟨⟨?_, ?_⟩, fun next responded => ?_⟩
    · intro untouched other same _
      cases same
      by_contra reaches
      exact untouched screen rfl (touches_iff.mpr reaches)
    · intro inert other same touches
      cases same
      exact touches_iff.mp touches (inert screen rfl ⟨accessor, refers, gone⟩)
    · exact Or.inr (stays next responded)

/-- **The screen leaves a removed talk alone** in exactly the runs whose events are inert
from the removal on. -/
theorem untouched_iff (strings : L10n) (store : TalkStore) (identifier : String)
    {events : List Event} {after : Except Fault Screen} :
    ((system strings).every Untouched).Run (shown strings store identifier) events after ↔
      ((system strings).restrict InertOnceRemoved).Run (shown strings store identifier) events
        after := by
  apply System.Run.iff_of_invariant Valid
  · intro before event after valid
    exact and_congr_left fun step => (untouched_iff_inert valid step).1
  · intro before event after valid step
    exact (untouched_iff_inert valid step.2).2
  · exact valid_shown strings store identifier

/-- **A swipe elsewhere, and the notes lose focus**: the handler writes to a talk that is
gone, which stops the program. -/
theorem notes_after_swipe_touch :
    let store : TalkStore := ⟨[Talk.named default "Vapor"], by decide⟩
    let start := shown L10n.base store (UUID.uuidString default)
    let events : List Event := [.swiped, .textViewDidEndEditing (some "late") true]
    (system L10n.base).Run start events (.error .invalidated) ∧
      ¬ ((system L10n.base).every Untouched).Run start events (.error .invalidated) := by
  intro store start events
  refine ⟨.cons ⟨_, rfl, rfl⟩ (.cons ⟨_, rfl, rfl⟩ (.nil _)), fun untouched => ?_⟩
  obtain ⟨_, _, later⟩ := untouched.cons_inv
  obtain ⟨_, ⟨leaves, screen, made, _⟩, done⟩ := later.cons_inv
  obtain rfl := done.nil_inv
  exact leaves screen made (Or.inl rfl)

end EventTalks.Detail

import EventTalks.Detail.Reading

/-! # What the handlers of the detail screen do

While the talk of the screen is in the store, every event of a control other than the
delete row leaves the talk there, changed by what the user edited and by nothing else
(`EventTalks.Detail.Shows.respond`).
-/

namespace EventTalks.Detail

open Foundation Network

/-- The screen's reference is current and reads a talk of the store. -/
structure Shows (screen : Screen) (accessor : Accessor) (talk : Talk) : Prop where
  refers : screen.talk = some accessor
  attached : accessor.attached
  managed : accessor.managed
  stored : screen.store.get? accessor.identifier = some talk

namespace Shows

variable {screen : Screen} {accessor : Accessor} {talk : Talk}

/-- The talk that is shown has the identifier of the reference. -/
theorem identifier_eq (shows : Shows screen accessor talk) :
    talk.identifier = accessor.identifier :=
  (KeyedTable.get?_eq_some.mp shows.stored).2

/-- The talk that is shown can be read. -/
theorem read (shows : Shows screen accessor talk) : screen.read accessor = .ok talk := by
  rw [Screen.read, shows.attached, shows.stored]

/-- The screen reads the talk that is shown. -/
theorem read? (shows : Shows screen accessor talk) : screen.read? = .ok (some talk) := by
  simp only [Screen.read?, shows.refers, shows.read]
  rfl

/-- A talk written under the same identifier is the one to show. -/
theorem upsert (shows : Shows screen accessor talk) {changed : Talk}
    (keeps : changed.identifier = talk.identifier) :
    Shows { screen with store := screen.store.upsert changed } accessor changed where
  refers := shows.refers
  attached := shows.attached
  managed := shows.managed
  stored := by rw [KeyedTable.get?_upsert, if_pos (by rw [keeps, shows.identifier_eq])]

/-- Storing another talk leaves the one that is shown as it is. -/
theorem upsert_other (shows : Shows screen accessor talk) {other : Talk}
    (differs : other.identifier ≠ talk.identifier) :
    Shows { screen with store := screen.store.upsert other } accessor talk where
  refers := shows.refers
  attached := shows.attached
  managed := shows.managed
  stored := by
    have elsewhere : accessor.identifier ≠ other.identifier :=
      fun same => differs (same.symm.trans shows.identifier_eq.symm)
    rw [KeyedTable.get?_upsert, if_neg elsewhere, shows.stored]

/-- What shows a talk does not depend on what is beside the store and the reference. -/
theorem congr {other : Screen} (shows : Shows screen accessor talk)
    (store : other.store = screen.store) (refers : other.talk = screen.talk) :
    Shows other accessor talk where
  refers := refers.trans shows.refers
  attached := shows.attached
  managed := shows.managed
  stored := by rw [store, shows.stored]

/-- What the screen shows after a write transaction that may not commit. -/
theorem written (shows : Shows screen accessor talk) (commits : Bool) (change : Talk → Talk)
    (keeps : (change talk).identifier = talk.identifier) {other : Screen}
    (store : other.store = if commits then screen.store.upsert (change talk) else screen.store)
    (refers : other.talk = screen.talk) :
    Shows other accessor (if commits then change talk else talk) := by
  cases commits with
  | false => exact shows.congr store refers
  | true => exact (shows.upsert keeps).congr store refers

end Shows

/-- **The screen that has loaded** shows the stored talk in the sections of that talk. -/
theorem shown_eq_ok {strings : L10n} {store : TalkStore} {identifier : String} {screen : Screen}
    (made : shown strings store identifier = .ok screen) :
    ∃ talk, store.get? identifier = some talk ∧
      screen =
        { store
          talk := some { identifier }
          updater := UUID.ofString? identifier
          title := talk.name
          sections := sectionsOf strings talk
          isViewLoaded := true } := by
  cases stored : store.get? identifier with
  | none =>
      simp [shown, Screen.assign, Screen.read?, Screen.read, stored, Except.map, bind,
        Except.bind] at made
  | some talk =>
      refine ⟨talk, rfl, ?_⟩
      simp only [shown, Screen.assign, Screen.viewDidLoad, Screen.configureView, Screen.read?,
        Screen.read, Screen.withUpdater_eq, stored, Except.map, bind, Except.bind,
        Option.bind_some, pure, Except.pure, Bool.false_eq_true, ↓reduceIte] at made
      rw [← Except.ok.inj made]
      cases UUID.ofString? identifier <;> rfl

/-- The screen that has loaded has a current reference. -/
theorem shows_shown {strings : L10n} {store : TalkStore} {identifier : String} {screen : Screen}
    (made : shown strings store identifier = .ok screen) :
    ∃ talk, store.get? identifier = some talk ∧ Shows screen { identifier } talk := by
  obtain ⟨talk, stored, rfl⟩ := shown_eq_ok made
  exact ⟨talk, stored, rfl, rfl, rfl, stored⟩

/-- A section is not read only because its index is out of range. -/
theorem section?_error {screen : Screen} {index : Nat} {fault : Fault}
    (fails : screen.section? index = .error fault) : fault = .indexOutOfRange := by
  unfold Screen.section? at fails
  cases found : screen.sections[index]? with
  | some _ => simp [found] at fails
  | none => simpa [found] using fails.symm

/-- A row is not read only because its index is out of range. -/
theorem row?_error {screen : Screen} {path : IndexPath} {fault : Fault}
    (fails : screen.row? path = .error fault) : fault = .indexOutOfRange := by
  unfold Screen.row? at fails
  cases found : screen.section? path.sectionIdx with
  | error other =>
      rw [found] at fails
      obtain rfl := Except.error.inj fails
      exact section?_error found
  | ok place =>
      rw [found] at fails
      simp only [bind, Except.bind] at fails
      cases reads : place.rows[path.row]? with
      | some row => simp [reads, pure, Except.pure] at fails
      | none => simpa [reads] using fails.symm

/-- What an event of a control changes in the talk, if its write commits. -/
def change (strings : L10n) (screen : Screen) (event : Event) (talk : Talk) : Talk :=
  match event with
  | .editingChanged (some path) text _ =>
      match screen.row? path with
      | .ok (found, .editable _ _) => Screen.typed strings found.title text talk
      | _ => talk
  | .toggleSwitch (some _) false _ _ => { talk with dueDate := none }
  | .datePickerChanged (some _) date _ => { talk with dueDate := some date }
  | .textViewDidEndEditing text _ => { talk with notes := text }
  | _ => talk

/-- Whether the write of an event commits. -/
def Event.commits : Event → Bool
  | .editingChanged _ _ commits | .toggleSwitch _ _ _ commits | .datePickerChanged _ _ commits
  | .textViewDidEndEditing _ commits => commits
  | .didEndEditing _ _ | .didSelectRowAt _ _ | .swiped | .fetched _ _ => false

/-- What an event of a control makes of the talk. -/
def edited (strings : L10n) (screen : Screen) (event : Event) (talk : Talk) : Talk :=
  if event.commits then change strings screen event talk else talk

/-- An event that leaves the talk in the store: of a control, and not a tap on the
delete row. -/
def Leaves (screen : Screen) : Event → Prop
  | .didSelectRowAt path _ => ∀ found, screen.row? path ≠ .ok (found, .delete)
  | .swiped | .fetched _ _ => False
  | .editingChanged _ _ _ | .didEndEditing _ _ | .toggleSwitch _ _ _ _ | .datePickerChanged _ _ _
  | .textViewDidEndEditing _ _ => True

/-- A screen after a handler that left the talk there as it is given, and sent only
what its transaction wrote. -/
structure Handled (before : Screen) (accessor : Accessor) (written talk : Talk)
    (after : Screen) : Prop where
  shows : Shows after accessor talk
  updater : after.updater = before.updater
  strayDeletes : after.strayDeletes = before.strayDeletes
  requests : ∃ uuids : List UUID, after.requests = before.requests ++
    uuids.map fun uuid => .updateTalk uuid written.body

/-- Rows that are placed afterwards make no difference. -/
theorem Handled.place {before after : Screen} {accessor : Accessor} {written talk : Talk}
    (handled : Handled before accessor written talk after) (index : Nat) (found : Section)
    (rows : List Row) : Handled before accessor written talk (after.place index found rows) where
  shows := handled.shows.congr rfl rfl
  updater := handled.updater
  strayDeletes := handled.strayDeletes
  requests := handled.requests

/-- A handler wrote the talk and left it there, or an index was wrong. -/
def Answer (before : Screen) (accessor : Accessor) (written talk : Talk) :
    Except Fault Screen → Prop
  | .ok after => Handled before accessor written talk after
  | .error fault => fault = .indexOutOfRange ∨ fault = .negativeCount

/-- An edit that changes nothing leaves the talk as it is. -/
theorem edited_eq_self {strings : L10n} {screen : Screen} {event : Event} {talk : Talk}
    (same : change strings screen event talk = talk) :
    edited strings screen event talk = talk := by
  rw [edited, same, ite_self]

/-- What is typed is not the primary key. -/
theorem typed_identifier (strings : L10n) (title text : Option String) (talk : Talk) :
    (Screen.typed strings title text talk).identifier = talk.identifier := by
  unfold Screen.typed
  split <;> rfl

namespace Shows

variable {strings : L10n} {screen : Screen} {accessor : Accessor} {talk : Talk}

/-- A handler that leaves store, reference and requests has handled its event. -/
theorem handled (shows : Shows screen accessor talk) {written : Talk} {next : Screen}
    (store : next.store = screen.store) (refers : next.talk = screen.talk)
    (updater : next.updater = screen.updater) (strays : next.strayDeletes = screen.strayDeletes)
    (requests : next.requests = screen.requests) : Handled screen accessor written talk next :=
  ⟨shows.congr store refers, updater, strays, [], by simp [requests]⟩

/-- A transaction that writes the talk and sends it. -/
theorem handled_edit (shows : Shows screen accessor talk) (commits : Bool)
    (change : Talk → Talk) (keeps : (change talk).identifier = talk.identifier) :
    Handled screen accessor (change talk) (if commits then change talk else talk)
      (screen.edit commits change (some talk)) := by
  refine ⟨shows.written commits change keeps rfl rfl, rfl, rfl, screen.updater.toList, ?_⟩
  rw [Screen.requests_edit, Option.map_some, puts_some]

/-- Typing writes what is typed, and sends nothing. -/
theorem editingChanged (shows : Shows screen accessor talk) (path : Option IndexPath)
    (text : Option String) (commits : Bool) :
    Answer screen accessor (change strings screen (.editingChanged path text commits) talk)
      (edited strings screen (.editingChanged path text commits) talk)
      (screen.editingChanged strings path text commits) := by
  cases path with
  | none =>
      rw [edited_eq_self rfl]
      exact shows.handled rfl rfl rfl rfl rfl
  | some path =>
      cases reads : screen.row? path with
      | error fault =>
          simp only [Screen.editingChanged, reads, bind, Except.bind]
          exact Or.inl (row?_error reads)
      | ok place =>
          obtain ⟨found, row⟩ := place
          simp only [edited, change, Event.commits, reads]
          cases row with
          | editable shown placeholder =>
              rw [Screen.editingChanged_of_editable text commits reads, shows.read?]
              have typed := typed_identifier strings found.title text talk
              exact ⟨shows.written commits _ typed rfl rfl,
                rfl, rfl, [], by simp [Screen.stored]⟩
          | text | switch | date | datePicker | notes | delete =>
              rw [ite_self, Screen.editingChanged_of_foreign text commits reads (by simp)]
              exact shows.handled rfl rfl rfl rfl rfl

/-- The end of editing writes nothing, and sends the talk. -/
theorem didEndEditing (shows : Shows screen accessor talk) (path : Option IndexPath)
    (text : Option String) :
    Answer screen accessor talk talk (screen.didEndEditing strings path text) := by
  cases path with
  | none => exact shows.handled rfl rfl rfl rfl rfl
  | some path =>
      cases reads : screen.row? path with
      | error fault =>
          simp only [Screen.didEndEditing, reads, bind, Except.bind]
          exact Or.inl (row?_error reads)
      | ok place =>
          obtain ⟨found, row⟩ := place
          cases row with
          | editable shown placeholder =>
              have titled : Shows (screen.titled strings found text) accessor talk :=
                shows.congr (by simp) (by simp)
              rw [Screen.didEndEditing_of_editable text reads, Screen.sendUpdate_eq, titled.read?]
              split
              · refine ⟨titled.congr rfl rfl, ?_, ?_, screen.updater.toList, ?_⟩
                · simp [Screen.sent]
                · simp [Screen.sent]
                · simp [Screen.sent, puts_some]
              · exact shows.handled (by simp) (by simp) (by simp) (by simp) (by simp)
          | text | switch | date | datePicker | notes | delete =>
              rw [Screen.didEndEditing_of_foreign text reads (by simp)]
              exact shows.handled rfl rfl rfl rfl rfl

/-- The switch writes no date when it is off, and sends that. -/
theorem toggleSwitch (shows : Shows screen accessor talk) (path : Option IndexPath) (isOn : Bool)
    (now : Date) (commits : Bool) :
    Answer screen accessor (change strings screen (.toggleSwitch path isOn now commits) talk)
      (edited strings screen (.toggleSwitch path isOn now commits) talk)
      (screen.toggleSwitch strings path isOn now commits) := by
  cases path with
  | none =>
      rw [edited_eq_self rfl]
      exact shows.handled rfl rfl rfl rfl rfl
  | some path =>
      cases reads : screen.section? path.sectionIdx with
      | error fault =>
          simp only [Screen.toggleSwitch, reads, bind, Except.bind]
          exact Or.inl (section?_error reads)
      | ok found =>
          have located := Screen.section?_eq_ok.mp reads
          cases isOn with
          | true =>
              rw [edited_eq_self rfl, Screen.toggleSwitch_on now commits located, shows.read?]
              exact shows.handled rfl rfl rfl rfl rfl
          | false =>
              by_cases vacant : found.rows = []
              · simp only [Screen.toggleSwitch, reads, vacant, ok_bind, Bool.false_eq_true,
                  ↓reduceIte, List.isEmpty_nil]
                exact Or.inr rfl
              · rw [Screen.toggleSwitch_off now commits located vacant, shows.read?]
                exact (shows.handled_edit commits (fun talk => { talk with dueDate := none })
                  rfl).place _ _ _

/-- The picker is shown or not, and nothing is written or sent. -/
theorem toggleDatePicker (shows : Shows screen accessor talk) (sectionIdx : Nat) (now : Date) :
    Answer screen accessor talk talk (screen.toggleDatePicker sectionIdx now) := by
  unfold Screen.toggleDatePicker
  split
  · exact shows.handled rfl rfl rfl rfl rfl
  · split
    · exact shows.handled rfl rfl rfl rfl rfl
    · simp only [shows.read?, bind, Except.bind]
      exact shows.handled rfl rfl rfl rfl rfl

/-- The picker writes its date, and sends it. -/
theorem datePickerChanged (shows : Shows screen accessor talk) (path : Option IndexPath)
    (date : Date) (commits : Bool) :
    Answer screen accessor (change strings screen (.datePickerChanged path date commits) talk)
      (edited strings screen (.datePickerChanged path date commits) talk)
      (screen.datePickerChanged strings path date commits) := by
  cases path with
  | none =>
      rw [edited_eq_self rfl]
      exact shows.handled rfl rfl rfl rfl rfl
  | some path =>
      cases reads : screen.section? path.sectionIdx with
      | error fault =>
          simp only [Screen.datePickerChanged, reads, bind, Except.bind]
          exact Or.inl (section?_error reads)
      | ok found =>
          have located := Screen.section?_eq_ok.mp reads
          by_cases enough : 1 < found.rows.length
          · rw [Screen.datePickerChanged_of_rows date commits located enough, shows.read?]
            exact (shows.handled_edit commits (fun talk => { talk with dueDate := some date })
              rfl).place _ _ _
          · simp only [Screen.datePickerChanged, reads, ok_bind, Nat.not_lt.mp enough, ↓reduceIte]
            exact Or.inl rfl

/-- The end of editing notes writes them, and sends them. -/
theorem textViewDidEndEditing (shows : Shows screen accessor talk) (text : Option String)
    (commits : Bool) :
    Answer screen accessor (change strings screen (.textViewDidEndEditing text commits) talk)
      (edited strings screen (.textViewDidEndEditing text commits) talk)
      (screen.textViewDidEndEditing text commits) := by
  rw [Screen.textViewDidEndEditing_eq, shows.read?]
  exact shows.handled_edit commits (fun talk => { talk with notes := text }) rfl

/-- **A control's event edits the talk and nothing else**, or an index was wrong. -/
theorem respond (strings : L10n) (shows : Shows screen accessor talk) {event : Event}
    (leaves : Leaves screen event) :
    Answer screen accessor (change strings screen event talk) (edited strings screen event talk)
      (screen.respond strings event) := by
  cases event with
  | editingChanged path text commits => exact shows.editingChanged path text commits
  | didEndEditing path text => exact shows.didEndEditing path text
  | toggleSwitch path isOn now commits => exact shows.toggleSwitch path isOn now commits
  | datePickerChanged path date commits => exact shows.datePickerChanged path date commits
  | textViewDidEndEditing text commits => exact shows.textViewDidEndEditing text commits
  | didSelectRowAt path now =>
      rw [Screen.respond, Screen.didSelectRowAt, edited_eq_self rfl]
      cases reads : screen.row? path with
      | error fault =>
          simp only [bind, Except.bind]
          exact Or.inl (row?_error reads)
      | ok place =>
          obtain ⟨found, row⟩ := place
          simp only [bind, Except.bind]
          cases row with
          | date title date => exact shows.toggleDatePicker path.sectionIdx now
          | delete => exact absurd reads (leaves found)
          | text | editable | switch | datePicker | notes => exact shows.handled rfl rfl rfl rfl rfl
  | swiped | fetched => exact leaves.elim

end Shows

end EventTalks.Detail

import EventTalks.Detail.Screen

/-! # The handlers by the talk they read

A handler reads the talk of the screen once. What it leaves behind is a function of what
it read, on every screen: one that shows a talk of the store, one without a talk, and one
whose talk is gone, where the read is the fault that stops the handler. The equations of
this module say so, one for each branch of a handler.
-/

namespace EventTalks.Detail

open Foundation Network

/-- The updates that an updater sends of a talk, if there are both. -/
def puts (updater : Option UUID) (talk : Option Talk) : List Router :=
  match updater with
  | none => []
  | some uuid => talk.toList.map fun talk => .updateTalk uuid talk.body

/-- Nothing is sent of a screen without a talk. -/
@[simp] theorem puts_none (updater : Option UUID) : puts updater none = [] := by
  cases updater <;> rfl

/-- With an updater, one update is sent, with the values of the talk. -/
theorem puts_some (updater : Option UUID) (talk : Talk) :
    puts updater (some talk) = updater.toList.map fun uuid => .updateTalk uuid talk.body := by
  cases updater <;> rfl

namespace Screen

variable {strings : L10n} {screen : Screen} {found : Section} {path : IndexPath}

/-- A screen after a transaction that writes the talk it read. -/
def stored (screen : Screen) (commits : Bool) (change : Talk → Talk) : Option Talk → Screen
  | none => screen
  | some talk => { screen with
      store := if commits then screen.store.upsert (change talk) else screen.store }

/-- A screen after an update of the talk it read. -/
def sent (screen : Screen) (talk : Option Talk) : Screen :=
  { screen with requests := screen.requests ++ puts screen.updater talk }

/-- A screen after a transaction that writes the talk it read, and sends it. -/
def edit (screen : Screen) (commits : Bool) (change : Talk → Talk) (talk : Option Talk) : Screen :=
  (screen.stored commits change talk).sent (talk.map change)

/-- A screen with other rows in a section. -/
def place (screen : Screen) (index : Nat) (found : Section) (rows : List Row) : Screen :=
  { screen with sections := screen.sections.set index { found with rows } }

section Fields

variable (screen : Screen) (commits : Bool) (change : Talk → Talk) (talk : Option Talk)

/-- Storing a talk leaves the reference of the screen as it is. -/
@[simp] theorem talk_stored : (screen.stored commits change talk).talk = screen.talk := by
  cases talk <;> rfl

/-- Storing a talk leaves the updater as it is. -/
@[simp] theorem updater_stored : (screen.stored commits change talk).updater = screen.updater := by
  cases talk <;> rfl

/-- Storing a talk leaves the sections as they are. -/
@[simp] theorem sections_stored :
    (screen.stored commits change talk).sections = screen.sections := by
  cases talk <;> rfl

/-- Storing a talk sends nothing. -/
@[simp] theorem requests_stored :
    (screen.stored commits change talk).requests = screen.requests := by
  cases talk <;> rfl

/-- An edit leaves the reference of the screen as it is. -/
@[simp] theorem talk_edit : (screen.edit commits change talk).talk = screen.talk :=
  talk_stored screen commits change talk

/-- An edit leaves the updater as it is. -/
@[simp] theorem updater_edit : (screen.edit commits change talk).updater = screen.updater :=
  updater_stored screen commits change talk

/-- An edit leaves the sections as they are. -/
@[simp] theorem sections_edit : (screen.edit commits change talk).sections = screen.sections :=
  sections_stored screen commits change talk

/-- An edit sends the edited talk, when there is an updater. -/
@[simp] theorem requests_edit : (screen.edit commits change talk).requests =
    screen.requests ++ puts screen.updater (talk.map change) := by
  simp [edit, sent]

/-- Rows are placed without regard to a transaction. -/
theorem edit_place (index : Nat) (found : Section) (rows : List Row) :
    (screen.place index found rows).edit commits change talk =
      (screen.edit commits change talk).place index found rows := by
  cases talk <;> rfl

end Fields

/-- A section is read exactly when its index is in range. -/
theorem section?_eq_ok {index : Nat} :
    screen.section? index = .ok found ↔ screen.sections[index]? = some found := by
  unfold Screen.section?
  cases screen.sections[index]? with
  | none => simp
  | some other => simp

/-- A row is read exactly when its section and its index there are in range. -/
theorem row?_eq_ok {row : Row} : screen.row? path = .ok (found, row) ↔
    screen.sections[path.sectionIdx]? = some found ∧ found.rows[path.row]? = some row := by
  unfold Screen.row? Screen.section?
  cases located : screen.sections[path.sectionIdx]? with
  | none => simp [bind, Except.bind]
  | some other =>
      simp only [ok_bind, Option.some.injEq]
      cases inside : other.rows[path.row]? with
      | none =>
          simp only [reduceCtorEq, false_iff, not_and]
          rintro rfl
          simp [inside]
      | some reached =>
          simp only [pure, Except.pure, Except.ok.injEq, Prod.mk.injEq]
          constructor
          · rintro ⟨rfl, rfl⟩
            exact ⟨rfl, inside⟩
          · rintro ⟨rfl, same⟩
            exact ⟨rfl, Option.some.inj (inside.symm.trans same)⟩

/-- A reference is read exactly when it is attached and the store has its talk. -/
theorem read_eq_ok {accessor : Accessor} {talk : Talk} : screen.read accessor = .ok talk ↔
    accessor.attached ∧ screen.store.get? accessor.identifier = some talk := by
  unfold Screen.read
  cases accessor.attached <;> cases screen.store.get? accessor.identifier <;> simp

/-- What is read is the talk of the store under the reference. -/
theorem read?_eq_some {talk : Talk} : screen.read? = .ok (some talk) ↔
    ∃ accessor, screen.talk = some accessor ∧ screen.read accessor = .ok talk := by
  unfold Screen.read?
  cases screen.talk with
  | none => simp
  | some accessor => simp [map_eq_ok]

/-- Reading finds no talk exactly when the screen has none. -/
theorem read?_eq_none : screen.read? = .ok none ↔ screen.talk = none := by
  unfold Screen.read?
  cases screen.talk with
  | none => simp
  | some accessor => simp [map_eq_ok]

/-- Reading a reference fails only because it is invalidated. -/
theorem read_error {accessor : Accessor} {fault : Fault}
    (fails : screen.read accessor = .error fault) : fault = .invalidated := by
  unfold Screen.read at fails
  split at fails
  · cases fails
  · exact (Except.error.inj fails).symm

/-- **The only fault of a read** is that the talk is gone. -/
theorem read?_error {fault : Fault} (fails : screen.read? = .error fault) :
    fault = .invalidated := by
  unfold Screen.read? at fails
  cases refers : screen.talk with
  | none => simp [refers] at fails
  | some accessor =>
      simp only [refers] at fails
      cases reads : screen.read accessor with
      | ok talk => simp [reads, Except.map] at fails
      | error other =>
          simp only [reads, Except.map, Except.error.injEq] at fails
          exact fails.symm.trans (read_error reads)

/-- To set a property is to read the talk and to store it changed. -/
theorem setTalk_eq (screen : Screen) (change : Talk → Talk) :
    screen.setTalk change = screen.read?.map (screen.stored true change) := by
  unfold Screen.setTalk Screen.read?
  cases refers : screen.talk with
  | none => rfl
  | some accessor =>
      simp only
      cases screen.read accessor with
      | error fault => rfl
      | ok talk => simp [Except.map, stored, refers, pure, Except.pure]

/-- Without an updater nothing is sent. -/
theorem sent_of_silent (silent : screen.updater = none) (talk : Option Talk) :
    screen.sent talk = screen := by
  obtain ⟨store, reference, updater, title, sections, isViewLoaded, requests, stray⟩ := screen
  obtain rfl : updater = none := silent
  simp [sent, puts]

/-- Without an updater nothing is sent; with one, the talk is read and sent. -/
theorem sendUpdate_eq (screen : Screen) : screen.sendUpdate =
    if screen.updater.isSome then screen.read?.map screen.sent else .ok screen := by
  obtain ⟨store, reference, updater, title, sections, isViewLoaded, requests, stray⟩ := screen
  unfold Screen.sendUpdate Screen.read?
  cases reference with
  | none => cases updater <;> simp [Except.map, sent]
  | some accessor =>
      cases updater with
      | none => rfl
      | some uuid =>
          simp only [Option.isSome_some, ↓reduceIte]
          cases Screen.read _ accessor <;> rfl

/-- A write that sets a property reads the talk, and stores it if it commits. -/
theorem write_setTalk_eq (screen : Screen) (commits : Bool) (change : Talk → Talk) :
    screen.write commits (·.setTalk change) = screen.read?.map (screen.stored commits change) := by
  simp only [Screen.write, setTalk_eq]
  cases screen.read? with
  | error fault => rfl
  | ok talk => cases talk <;> cases commits <;> rfl

/-- A write under the same identifier is what the next read reads. -/
theorem read?_stored {change : Talk → Talk}
    (keeps : ∀ talk, (change talk).identifier = talk.identifier)
    {talk : Talk} (reads : screen.read? = .ok (some talk)) :
    (screen.stored true change (some talk)).read? = .ok (some (change talk)) := by
  obtain ⟨accessor, refers, found⟩ := read?_eq_some.mp reads
  obtain ⟨attached, held⟩ := read_eq_ok.mp found
  refine read?_eq_some.mpr ⟨accessor, refers, read_eq_ok.mpr ⟨attached, ?_⟩⟩
  have same : accessor.identifier = (change talk).identifier := by
    rw [keeps, (KeyedTable.get?_eq_some.mp held).2]
  change (screen.store.upsert (change talk)).get? accessor.identifier = _
  rw [KeyedTable.get?_upsert, if_pos same]

/-- A read depends on the store and the reference only. -/
theorem read?_congr {other : Screen} (store : other.store = screen.store)
    (refers : other.talk = screen.talk) : other.read? = screen.read? := by
  simp only [Screen.read?, Screen.read, store, refers]

/-- What is read after a transaction is what it wrote, if it commits. -/
theorem read?_edit (commits : Bool) (change : Talk → Talk)
    (keeps : ∀ talk, (change talk).identifier = talk.identifier) {talk : Option Talk}
    (reads : screen.read? = .ok talk) :
    (screen.edit commits change talk).read? =
      .ok (talk.map fun talk => if commits then change talk else talk) := by
  cases talk with
  | none => exact reads
  | some talk =>
      cases commits with
      | false => exact reads
      | true => exact read?_stored keeps reads

/-- **A transaction that writes the talk and sends it**, whether it commits or not. -/
theorem write_setTalk_sendUpdate_eq (screen : Screen) (commits : Bool) (change : Talk → Talk)
    (keeps : ∀ talk, (change talk).identifier = talk.identifier) :
    (screen.write commits fun screen => do
        let written ← screen.setTalk change
        written.sendUpdate) = screen.read?.map (screen.edit commits change) := by
  simp only [Screen.write, setTalk_eq]
  cases reads : screen.read? with
  | error fault => rfl
  | ok talk =>
      have next : (screen.stored true change talk).read? = .ok (talk.map change) := by
        cases talk with
        | none => exact reads
        | some talk => exact read?_stored keeps reads
      simp only [Except.map, ok_bind, sendUpdate_eq, next, updater_stored]
      rcases Option.eq_none_or_eq_some screen.updater with silent | ⟨uuid, updates⟩
      · simp only [silent, Option.isSome_none, Bool.false_eq_true, ↓reduceIte, ok_bind, edit]
        rw [sent_of_silent ((updater_stored _ _ _ _).trans silent)]
        cases talk <;> cases commits <;> rfl
      · simp only [updates, Option.isSome_some, ↓reduceIte, ok_bind]
        cases talk <;> cases commits <;> rfl

/-! ## One equation for each branch of a handler -/

/-- In an editable row, what is typed is stored and not sent. -/
theorem editingChanged_of_editable {shown placeholder : Option String} (text : Option String)
    (commits : Bool) (reads : screen.row? path = .ok (found, .editable shown placeholder)) :
    screen.editingChanged strings (some path) text commits =
      screen.read?.map (screen.stored commits (typed strings found.title text)) := by
  simp only [Screen.editingChanged, reads, ok_bind]
  exact write_setTalk_eq screen commits _

/-- The text typed under a title becomes the title of the screen when that is the name's. -/
def titled (strings : L10n) (found : Section) (text : Option String) (screen : Screen) : Screen :=
  if found.title = some strings.talkNameTitle then { screen with title := text } else screen

section Titled

variable (strings : L10n) (found : Section) (text : Option String) (screen : Screen)

/-- A new title leaves the store as it is. -/
@[simp] theorem store_titled : (screen.titled strings found text).store = screen.store := by
  unfold titled
  split <;> rfl

/-- A new title leaves the reference of the screen as it is. -/
@[simp] theorem talk_titled : (screen.titled strings found text).talk = screen.talk := by
  unfold titled
  split <;> rfl

/-- A new title leaves the updater as it is. -/
@[simp] theorem updater_titled : (screen.titled strings found text).updater = screen.updater := by
  unfold titled
  split <;> rfl

/-- A new title leaves the sections as they are. -/
@[simp] theorem sections_titled :
    (screen.titled strings found text).sections = screen.sections := by
  unfold titled
  split <;> rfl

/-- A new title sends nothing. -/
@[simp] theorem requests_titled :
    (screen.titled strings found text).requests = screen.requests := by
  unfold titled
  split <;> rfl

/-- A new title deletes no talk that is gone. -/
@[simp] theorem strayDeletes_titled :
    (screen.titled strings found text).strayDeletes = screen.strayDeletes := by
  unfold titled
  split <;> rfl

/-- A new title leaves what the screen reads as it is. -/
@[simp] theorem read?_titled : (screen.titled strings found text).read? = screen.read? :=
  read?_congr (store_titled strings found text screen) (talk_titled strings found text screen)

end Titled

/-- When editing ends in an editable row, the title is taken over and the talk is sent. -/
theorem didEndEditing_of_editable {shown placeholder : Option String} (text : Option String)
    (reads : screen.row? path = .ok (found, .editable shown placeholder)) :
    screen.didEndEditing strings (some path) text =
      (screen.titled strings found text).sendUpdate := by
  simp only [Screen.didEndEditing, reads, ok_bind]
  rfl

/-- Typing in a row of another kind does nothing. -/
theorem editingChanged_of_foreign {row : Row} (text : Option String) (commits : Bool)
    (reads : screen.row? path = .ok (found, row))
    (foreign : ∀ shown placeholder, row ≠ .editable shown placeholder) :
    screen.editingChanged strings (some path) text commits = .ok screen := by
  simp only [Screen.editingChanged, reads, ok_bind]
  cases row with
  | editable shown placeholder => exact absurd rfl (foreign shown placeholder)
  | text | switch | date | datePicker | notes | delete => rfl

/-- The end of editing in a row of another kind does nothing. -/
theorem didEndEditing_of_foreign {row : Row} (text : Option String)
    (reads : screen.row? path = .ok (found, row))
    (foreign : ∀ shown placeholder, row ≠ .editable shown placeholder) :
    screen.didEndEditing strings (some path) text = .ok screen := by
  simp only [Screen.didEndEditing, reads, ok_bind]
  cases row with
  | editable shown placeholder => exact absurd rfl (foreign shown placeholder)
  | text | switch | date | datePicker | notes | delete => rfl

/-- The date that a talk is shown with: its due date, or the present. -/
def dateOf (talk : Option Talk) (now : Date) : Date := (talk.bind Talk.dueDate).getD now

/-- Switched on, the section gets a row with the date, and nothing is stored or sent. -/
theorem toggleSwitch_on (now : Date) (commits : Bool)
    (located : screen.sections[path.sectionIdx]? = some found) :
    screen.toggleSwitch strings (some path) true now commits =
      screen.read?.map fun talk => screen.place path.sectionIdx found
        (switched true (found.rows ++ [.date strings.talkDateAlarm (dateOf talk now)])) := by
  simp only [Screen.toggleSwitch, section?_eq_ok.mpr located, ok_bind, ↓reduceIte]
  cases screen.read? <;> rfl

/-- Switched off, the date is removed and sent, and the section keeps its switch alone. -/
theorem toggleSwitch_off (now : Date) (commits : Bool)
    (located : screen.sections[path.sectionIdx]? = some found) (filled : found.rows ≠ []) :
    screen.toggleSwitch strings (some path) false now commits =
      screen.read?.map fun talk =>
        (screen.edit commits (fun talk => { talk with dueDate := none }) talk).place
          path.sectionIdx found (switched false (found.rows.take 1)) := by
  have sends := write_setTalk_sendUpdate_eq screen commits
    (fun talk => { talk with dueDate := none }) fun _ => rfl
  simp only [Screen.toggleSwitch, section?_eq_ok.mpr located, ok_bind, Bool.false_eq_true,
    ↓reduceIte, List.isEmpty_iff, filled, sends]
  cases screen.read? with
  | error fault => rfl
  | ok talk => simp [Except.map, place, pure, Except.pure]

/-- A picked date is stored and sent, and shown in the row before the picker. -/
theorem datePickerChanged_of_rows (date : Date) (commits : Bool)
    (located : screen.sections[path.sectionIdx]? = some found) (enough : 1 < found.rows.length) :
    screen.datePickerChanged strings (some path) date commits =
      screen.read?.map fun talk =>
        (screen.edit commits (fun talk => { talk with dueDate := some date }) talk).place
          path.sectionIdx found (found.rows.set 1 (.date strings.talkDateAlarm date)) := by
  simp only [← edit_place, Screen.datePickerChanged, section?_eq_ok.mpr located, ok_bind,
    Nat.not_le.mpr enough, ↓reduceIte]
  exact write_setTalk_sendUpdate_eq _ commits _ fun _ => rfl

/-- Notes are stored and sent when their editing ends. -/
theorem textViewDidEndEditing_eq (screen : Screen) (text : Option String) (commits : Bool) :
    screen.textViewDidEndEditing text commits =
      screen.read?.map (screen.edit commits fun talk => { talk with notes := text }) :=
  write_setTalk_sendUpdate_eq screen commits _ fun _ => rfl

/-- A picker that is shown is taken away. -/
theorem toggleDatePicker_close {index : Nat} {date : Date} (now : Date)
    (located : screen.sections[index]? = some found)
    (last : found.rows.getLast? = some (.datePicker date)) :
    screen.toggleDatePicker index now = .ok (screen.place index found found.rows.dropLast) := by
  simp only [Screen.toggleDatePicker, located, last]
  rfl

/-- A picker that is not shown is added, with the date of the talk. -/
theorem toggleDatePicker_open {index : Nat} (now : Date)
    (located : screen.sections[index]? = some found)
    (last : ∀ date, found.rows.getLast? ≠ some (.datePicker date)) :
    screen.toggleDatePicker index now = screen.read?.map fun talk =>
      screen.place index found (found.rows ++ [.datePicker (dateOf talk now)]) := by
  simp only [Screen.toggleDatePicker, located]
  cases screen.read? <;> rfl

/-- The updater is the one of the identifier, or that from before. -/
theorem withUpdater_eq (screen : Screen) :
    screen.withUpdater = { screen with
      updater := (screen.talk.bind fun accessor => UUID.ofString? accessor.identifier).or
        screen.updater } := by
  unfold Screen.withUpdater
  cases screen.talk.bind fun accessor => UUID.ofString? accessor.identifier <;> rfl

/-- A screen with a reference and what it shows of the talk there, and the updater that
follows. -/
def refer (screen : Screen) (reference : Option Accessor) (talk : Option Talk) : Screen :=
  { screen with talk := reference, title := talk.bind Talk.name }.withUpdater

/-- What a new reference sets, in one record. -/
theorem refer_eq (screen : Screen) (reference : Option Accessor) (talk : Option Talk) :
    screen.refer reference talk = { screen with
      talk := reference
      title := talk.bind Talk.name
      updater := (reference.bind fun accessor => UUID.ofString? accessor.identifier).or
        screen.updater } := by
  rw [refer, withUpdater_eq]

/-- To assign a reference is to read its talk, and to configure the view with it. -/
theorem assign_eq (strings : L10n) (screen : Screen) (reference : Option Accessor) :
    screen.assign strings reference = { screen with talk := reference }.read?.bind fun talk =>
      if (screen.refer reference talk).isViewLoaded then
        (screen.refer reference talk).configureView strings
      else .ok (screen.refer reference talk) := rfl

/-- Configuring the view changes the sections, to those of the talk read. -/
theorem configureView_eq (strings : L10n) (screen : Screen) :
    screen.configureView strings = screen.read?.map fun talk => match talk with
      | none => screen
      | some talk => { screen with sections := sectionsOf strings talk } := by
  unfold Screen.configureView Screen.read?
  cases refers : screen.talk with
  | none => rfl
  | some accessor =>
      simp only
      cases screen.read accessor with
      | error fault => rfl
      | ok talk => simp [Except.map, pure, Except.pure]

end Screen

/-- An event that gets to the updater: the end of editing on an editable row, a switch
turned off in a section with rows, a date picked in a section with a second row, and the
end of editing of the notes. -/
def Screen.Sends (screen : Screen) : Event → Prop
  | .didEndEditing path _ => ∃ here found shown placeholder, path = some here ∧
      screen.row? here = .ok (found, .editable shown placeholder)
  | .toggleSwitch path isOn _ _ => isOn = false ∧ ∃ here found, path = some here ∧
      screen.sections[here.sectionIdx]? = some found ∧ found.rows ≠ []
  | .datePickerChanged path _ _ => ∃ here found, path = some here ∧
      screen.sections[here.sectionIdx]? = some found ∧ 1 < found.rows.length
  | .textViewDidEndEditing _ _ => True
  | .editingChanged _ _ _ | .didSelectRowAt _ _ | .swiped | .fetched _ _ => False

/-- What an event that does not stop the program leaves behind. -/
inductive Moved (strings : L10n) (screen : Screen) : Event → Screen → Prop
  | idle {event : Event} : ¬ screen.Sends event → Moved strings screen event screen
  | typed {path : IndexPath} {text : Option String} {commits : Bool} {found : Section}
      {shown placeholder : Option String} {talk : Option Talk} :
      screen.row? path = .ok (found, .editable shown placeholder) → screen.read? = .ok talk →
      Moved strings screen (.editingChanged (some path) text commits)
        (screen.stored commits (Screen.typed strings found.title text) talk)
  | ended {path : IndexPath} {text : Option String} {found : Section}
      {shown placeholder : Option String} {after : Screen} :
      screen.row? path = .ok (found, .editable shown placeholder) →
      (screen.titled strings found text).sendUpdate = .ok after →
      Moved strings screen (.didEndEditing (some path) text) after
  | switchedOn {path : IndexPath} {now : Date} {commits : Bool} {found : Section}
      {talk : Option Talk} :
      screen.sections[path.sectionIdx]? = some found → screen.read? = .ok talk →
      Moved strings screen (.toggleSwitch (some path) true now commits)
        (screen.place path.sectionIdx found (Screen.switched true
          (found.rows ++ [.date strings.talkDateAlarm (Screen.dateOf talk now)])))
  | switchedOff {path : IndexPath} {now : Date} {commits : Bool} {found : Section}
      {talk : Option Talk} :
      screen.sections[path.sectionIdx]? = some found → found.rows ≠ [] →
      screen.read? = .ok talk →
      Moved strings screen (.toggleSwitch (some path) false now commits)
        ((screen.edit commits (fun talk => { talk with dueDate := none }) talk).place
          path.sectionIdx found (Screen.switched false (found.rows.take 1)))
  | picked {path : IndexPath} {date : Date} {commits : Bool} {found : Section}
      {talk : Option Talk} :
      screen.sections[path.sectionIdx]? = some found → 1 < found.rows.length →
      screen.read? = .ok talk →
      Moved strings screen (.datePickerChanged (some path) date commits)
        ((screen.edit commits (fun talk => { talk with dueDate := some date }) talk).place
          path.sectionIdx found (found.rows.set 1 (.date strings.talkDateAlarm date)))
  | noted {text : Option String} {commits : Bool} {talk : Option Talk} :
      screen.read? = .ok talk →
      Moved strings screen (.textViewDidEndEditing text commits)
        (screen.edit commits (fun talk => { talk with notes := text }) talk)
  | closed {path : IndexPath} {now : Date} {found : Section} {title : String} {date last : Date} :
      screen.row? path = .ok (found, .date title date) →
      found.rows.getLast? = some (.datePicker last) →
      Moved strings screen (.didSelectRowAt path now)
        (screen.place path.sectionIdx found found.rows.dropLast)
  | opened {path : IndexPath} {now : Date} {found : Section} {title : String} {date : Date}
      {talk : Option Talk} :
      screen.row? path = .ok (found, .date title date) →
      (∀ last, found.rows.getLast? ≠ some (.datePicker last)) → screen.read? = .ok talk →
      Moved strings screen (.didSelectRowAt path now)
        (screen.place path.sectionIdx found
          (found.rows ++ [.datePicker (Screen.dateOf talk now)]))
  | deleted {path : IndexPath} {now : Date} {found : Section} {after : Screen} :
      screen.row? path = .ok (found, .delete) → screen.deleteTalk = .ok after →
      Moved strings screen (.didSelectRowAt path now) after.sendDelete
  | swiped : Moved strings screen .swiped screen.swiped
  | fetched (initials : Nat → Talk.Initial) (talks : List Response.Talk) :
      Moved strings screen (.fetched initials talks) (screen.fetched initials talks)

section Moves

variable {strings : L10n} {screen after : Screen}

/-- Typing moves the screen as it says. -/
theorem moved_of_editingChanged {path : Option IndexPath} {text : Option String} {commits : Bool}
    (responded : screen.editingChanged strings path text commits = .ok after) :
    Moved strings screen (.editingChanged path text commits) after := by
  cases path with
  | none =>
      obtain rfl := Except.ok.inj responded
      exact .idle id
  | some path =>
      cases reads : screen.row? path with
      | error fault => simp [Screen.editingChanged, reads, bind, Except.bind] at responded
      | ok place =>
          obtain ⟨found, row⟩ := place
          cases row with
          | editable shown placeholder =>
              rw [Screen.editingChanged_of_editable text commits reads] at responded
              obtain ⟨talk, read, rfl⟩ := map_eq_ok.mp responded
              exact .typed reads read
          | text | switch | date | datePicker | notes | delete =>
              rw [Screen.editingChanged_of_foreign text commits reads (by simp)] at responded
              obtain rfl := Except.ok.inj responded
              exact .idle id

/-- The end of editing moves the screen as it says. -/
theorem moved_of_didEndEditing {path : Option IndexPath} {text : Option String}
    (responded : screen.didEndEditing strings path text = .ok after) :
    Moved strings screen (.didEndEditing path text) after := by
  cases path with
  | none =>
      obtain rfl := Except.ok.inj responded
      exact .idle fun ⟨_, _, _, _, same, _⟩ => by cases same
  | some path =>
      cases reads : screen.row? path with
      | error fault => simp [Screen.didEndEditing, reads, bind, Except.bind] at responded
      | ok place =>
          obtain ⟨found, row⟩ := place
          cases row with
          | editable shown placeholder =>
              rw [Screen.didEndEditing_of_editable text reads] at responded
              exact .ended reads responded
          | text | switch | date | datePicker | notes | delete =>
              rw [Screen.didEndEditing_of_foreign text reads (by simp)] at responded
              obtain rfl := Except.ok.inj responded
              refine .idle ?_
              rintro ⟨here, found, shown, placeholder, same, other⟩
              obtain rfl := Option.some.inj same
              rw [reads] at other
              cases other

/-- The switch moves the screen as it says. -/
theorem moved_of_toggleSwitch {path : Option IndexPath} {isOn : Bool} {now : Date}
    {commits : Bool} (responded : screen.toggleSwitch strings path isOn now commits = .ok after) :
    Moved strings screen (.toggleSwitch path isOn now commits) after := by
  cases path with
  | none =>
      obtain rfl := Except.ok.inj responded
      exact .idle fun ⟨_, _, _, same, _⟩ => by cases same
  | some path =>
      cases reads : screen.section? path.sectionIdx with
      | error fault => simp [Screen.toggleSwitch, reads, bind, Except.bind] at responded
      | ok found =>
          have located := Screen.section?_eq_ok.mp reads
          cases isOn with
          | true =>
              rw [Screen.toggleSwitch_on now commits located] at responded
              obtain ⟨talk, read, rfl⟩ := map_eq_ok.mp responded
              exact .switchedOn located read
          | false =>
              by_cases vacant : found.rows = []
              · simp [Screen.toggleSwitch, reads, vacant] at responded
              · rw [Screen.toggleSwitch_off now commits located vacant] at responded
                obtain ⟨talk, read, rfl⟩ := map_eq_ok.mp responded
                exact .switchedOff located vacant read

/-- The picker moves the screen as it says. -/
theorem moved_of_datePickerChanged {path : Option IndexPath} {date : Date} {commits : Bool}
    (responded : screen.datePickerChanged strings path date commits = .ok after) :
    Moved strings screen (.datePickerChanged path date commits) after := by
  cases path with
  | none =>
      obtain rfl := Except.ok.inj responded
      exact .idle fun ⟨_, _, same, _⟩ => by cases same
  | some path =>
      cases reads : screen.section? path.sectionIdx with
      | error fault => simp [Screen.datePickerChanged, reads, bind, Except.bind] at responded
      | ok found =>
          have located := Screen.section?_eq_ok.mp reads
          by_cases enough : 1 < found.rows.length
          · rw [Screen.datePickerChanged_of_rows date commits located enough] at responded
            obtain ⟨talk, read, rfl⟩ := map_eq_ok.mp responded
            exact .picked located enough read
          · simp [Screen.datePickerChanged, reads, Nat.not_lt.mp enough] at responded

/-- A tap moves the screen as it says. -/
theorem moved_of_didSelectRowAt {path : IndexPath} {now : Date}
    (responded : screen.didSelectRowAt path now = .ok after) :
    Moved strings screen (.didSelectRowAt path now) after := by
  cases reads : screen.row? path with
  | error fault => simp [Screen.didSelectRowAt, reads, bind, Except.bind] at responded
  | ok place =>
      obtain ⟨found, row⟩ := place
      have located := (Screen.row?_eq_ok.mp reads).1
      simp only [Screen.didSelectRowAt, reads, ok_bind] at responded
      cases row with
      | date title date =>
          by_cases last : ∃ picked, found.rows.getLast? = some (.datePicker picked)
          · obtain ⟨picked, last⟩ := last
            simp only [Screen.toggleDatePicker_close now located last] at responded
            obtain rfl := Except.ok.inj responded
            exact .closed reads last
          · have apart := not_exists.mp last
            simp only [Screen.toggleDatePicker_open now located apart] at responded
            obtain ⟨talk, read, rfl⟩ := map_eq_ok.mp responded
            exact .opened reads apart read
      | delete =>
          obtain ⟨removed, done, sends⟩ := bind_eq_ok.mp responded
          obtain rfl := Except.ok.inj sends
          exact .deleted reads done
      | text | editable | switch | datePicker | notes =>
          obtain rfl := Except.ok.inj responded
          exact .idle id

/-- **What the screen does on an event.** -/
theorem moved_of_respond {event : Event} (responded : screen.respond strings event = .ok after) :
    Moved strings screen event after := by
  cases event with
  | editingChanged path text commits => exact moved_of_editingChanged responded
  | didEndEditing path text => exact moved_of_didEndEditing responded
  | toggleSwitch path isOn now commits => exact moved_of_toggleSwitch responded
  | datePickerChanged path date commits => exact moved_of_datePickerChanged responded
  | textViewDidEndEditing text commits =>
      have written := (screen.textViewDidEndEditing_eq text commits).symm.trans responded
      obtain ⟨talk, read, rfl⟩ := map_eq_ok.mp written
      exact .noted read
  | didSelectRowAt path now => exact moved_of_didSelectRowAt responded
  | swiped =>
      obtain rfl := Except.ok.inj responded
      exact .swiped
  | fetched initials talks =>
      obtain rfl := Except.ok.inj responded
      exact .fetched initials talks

end Moves

end EventTalks.Detail

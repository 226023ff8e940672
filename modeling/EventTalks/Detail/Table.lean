import EventTalks.Detail.Requests
import EventTalks.Foundation.IndexedEdits

/-! # The table of the detail screen

The table asks the screen for counts, titles, heights and cells, and the handlers tell it
what they have changed. The table remembers the counts that it read last; an update that
does not fit them stops the program (`EventTalks.Detail.TableUpdate.Fits`).
-/

namespace EventTalks.Detail

open Foundation

/-- The texts of the screen and of its delete row. -/
structure CellTexts extends L10n where
  talkDelete : String

def CellTexts.base : CellTexts := { L10n.base with talkDelete := "Delete this talk" }

inductive TextColor where
  | black
  | red
deriving DecidableEq

/-- A cell as the table shows it; a text cell can have a switch beside it. -/
inductive Cell where
  | text (text details : Option String) (textColor : TextColor) (accessoryView : Option Bool)
  | editable (placeholder text : Option String)
  | datePicker (date : Date)
  | notes (text : Option String)
deriving DecidableEq

def textCell (text details : Option String) (accessoryView : Option Bool := none) : Cell :=
  .text text details .black accessoryView

namespace Screen

def numberOfSections (screen : Screen) : Nat := screen.sections.length

def numberOfRowsInSection (index : Nat) (screen : Screen) : Except Fault Nat := do
  let found ← screen.section? index
  return found.rows.length

def titleForHeaderInSection (index : Nat) (screen : Screen) : Except Fault (Option String) := do
  let found ← screen.section? index
  return found.title

/-- The cell of a row, with dates as they are written. -/
def cellForRowAt (texts : CellTexts) (toString : Date → String) (path : IndexPath)
    (screen : Screen) : Except Fault Cell := do
  let (_, row) ← screen.row? path
  return match row with
    | .text title details => textCell title details
    | .editable text placeholder => .editable placeholder text
    | .switch text isOn => textCell (some text) none (some isOn)
    | .date title date => textCell (some title) (some (toString date))
    | .datePicker date => .datePicker date
    | .notes text => .notes text
    | .delete => .text (some texts.talkDelete) none .red none

def estimatedHeightForRowAt (path : IndexPath) (screen : Screen) : Except Fault Nat := do
  let (_, row) ← screen.row? path
  return match row with
    | .datePicker _ => 200
    | _ => 50

end Screen

/-- The row counts of sections. -/
def counts (sections : List Section) : List Nat := sections.map fun found => found.rows.length

/-- What a handler tells the table: to read everything again, or what it changed in one
section. -/
inductive TableUpdate where
  | reloadData
  | reloadSections (index : Nat)
  | batch (index : Nat) (edits : Edits)

/-- The rule for updates, on the counts that the table remembers and those it reads: a
section that is reloaded exists and is alone in changing, and a batch fits its section. -/
def TableUpdate.Fits (before after : List Nat) : TableUpdate → Prop
  | .reloadData => True
  | .reloadSections index => index < before.length ∧ ∃ count, after = before.set index count
  | .batch index edits => ∃ old new, before[index]? = some old ∧ after = before.set index new ∧
      edits.Balanced old new

namespace Screen

/-- What opening or closing the picker of a section tells the table, and the sections it
then reads. -/
def pickerUpdate (index : Nat) (now : Date) (screen : Screen) :
    Option (TableUpdate × List Section) :=
  match screen.sections[index]? with
  | none => none
  | some found =>
      match found.rows.getLast? with
      | some (.datePicker _) =>
          some (.batch index ⟨[found.rows.length - 1], [], []⟩,
            screen.sections.set index { found with rows := found.rows.dropLast })
      | _ =>
          match screen.read? with
          | .error _ => none
          | .ok talk =>
              let rows := found.rows ++ [.datePicker (dateOf talk now)]
              some (.batch index ⟨[], [rows.length - 1], []⟩,
                screen.sections.set index { found with rows })

/-- What a handler tells the table, and the sections it then reads. -/
def update (strings : L10n) (screen : Screen) : Event → Option (TableUpdate × List Section)
  | .toggleSwitch (some path) isOn now commits =>
      match screen.toggleSwitch strings (some path) isOn now commits with
      | .ok after => some (.reloadSections path.sectionIdx, after.sections)
      | .error _ => none
  | .datePickerChanged (some path) date _ =>
      -- the row is reloaded before the talk is written, which may fail
      match screen.sections[path.sectionIdx]? with
      | none => none
      | some found =>
          if found.rows.length ≤ 1 then none
          else some (.batch path.sectionIdx ⟨[], [], [1]⟩, screen.sections.set path.sectionIdx
            { found with rows := found.rows.set 1 (.date strings.talkDateAlarm date) })
  | .didSelectRowAt path now =>
      match screen.row? path with
      | .ok (_, .date _ _) => screen.pickerUpdate path.sectionIdx now
      | _ => none
  | _ => none

/-- What configuring the view tells the table. -/
def configured (strings : L10n) (screen : Screen) : Option (TableUpdate × List Section) :=
  match screen.talk, screen.configureView strings with
  | some _, .ok after => some (.reloadData, after.sections)
  | _, _ => none

/-- What a use of the screen tells the table, and the sections it then reads. -/
def announces (strings : L10n) (screen : Screen) : Use → Option (TableUpdate × List Section)
  | .assign identifier =>
      let reference : Option Accessor := identifier.map fun identifier => { identifier }
      match { screen with talk := reference }.read? with
      | .ok talk =>
          if screen.isViewLoaded then (screen.refer reference talk).configured strings else none
      | .error _ => none
  | .viewDidLoad => { screen with isViewLoaded := true }.withUpdater.configured strings
  | .event event => screen.update strings event

end Screen

/-- The screen, and the counts that its table read last. -/
structure Hosting where
  screen : Screen
  counts : List Nat

/-- The table reads the counts again when it is told of an update. -/
def Hosting.use (strings : L10n) (hosting : Hosting) (use : Use) : Except Fault Hosting :=
  (hosting.screen.use strings use).map fun screen =>
    { screen
      counts := match hosting.screen.announces strings use with
        | some (_, sections) => Detail.counts sections
        | none => hosting.counts }

/-- The screen with its table, until a fault stops it. -/
def hosting (strings : L10n) : System (Except Fault Hosting) Use where
  step before use after := ∃ state, before = .ok state ∧ after = state.use strings use

end EventTalks.Detail

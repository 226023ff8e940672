import EventTalks.Services.FetchAll
import EventTalks.Network.Router
import EventTalks.Foundation.Run

/-! # The detail screen

The screen holds a talk of the store, its sections of rows, and an updater with the
identifier its requests are about. Controls report their events with the place of a row;
the handlers edit the sections, write the talk, and send what they wrote. Handlers can
run into a fault: an index outside of a list, or a talk that the store no longer has.
-/

namespace EventTalks.Detail

open Foundation Network

/-- The texts of the screen. -/
structure L10n where
  talkNameTitle : String
  talkNamePlaceholder : String
  talkSpeakerNameTitle : String
  talkSpeakerNamePlaceholder : String
  talkDateTitle : String
  talkDateAsk : String
  talkDateAlarm : String
  talkNotesTitle : String

def L10n.base : L10n where
  talkNameTitle := "Title"
  talkNamePlaceholder := "Awesome talk title"
  talkSpeakerNameTitle := "Speaker"
  talkSpeakerNamePlaceholder := "Name"
  talkDateTitle := "Schedule date"
  talkDateAsk := "Decided yet?"
  talkDateAlarm := "Scheduled at"
  talkNotesTitle := "Notes"

inductive Row where
  | text (title details : Option String)
  | editable (text placeholder : Option String)
  | switch (text : String) (isOn : Bool)
  | date (title : String) (date : Date)
  | datePicker (date : Date)
  | notes (text : Option String)
  | delete
deriving DecidableEq

structure Section where
  title : Option String
  rows : List Row
deriving DecidableEq

structure IndexPath where
  sectionIdx : Nat
  row : Nat
deriving DecidableEq

/-- Why a handler stops the program. -/
inductive Fault where
  | indexOutOfRange
  | negativeCount
  | invalidated
  | unmanaged
deriving DecidableEq

/-- A reference to a talk of the store: whether the talk's row is still there, and
whether the reference still belongs to the store. -/
structure Accessor where
  identifier : String
  attached : Bool := true
  managed : Bool := true
deriving DecidableEq

/-- The store, the screen, the requests it has sent, and how often a delete was called on
a talk that was gone. -/
structure Screen where
  store : TalkStore
  talk : Option Accessor := none
  updater : Option UUID := none
  title : Option String := none
  sections : List Section := []
  isViewLoaded : Bool := false
  requests : List Router := []
  strayDeletes : Nat := 0

/-- The sections of a talk. -/
def sectionsOf (strings : L10n) (talk : Talk) : List Section :=
  let dateRows : List Row := match talk.dueDate with
    | some dueDate => [.date strings.talkDateAlarm dueDate]
    | none => []
  [{ title := some strings.talkNameTitle
     rows := [.editable talk.name (some strings.talkNamePlaceholder)] },
    { title := some strings.talkSpeakerNameTitle
      rows := [.editable talk.speakerName (some strings.talkSpeakerNamePlaceholder)] },
    { title := some strings.talkDateTitle
      rows := .switch strings.talkDateAsk talk.dueDate.isSome :: dateRows },
    { title := some strings.talkNotesTitle, rows := [.notes talk.notes] },
    { title := none, rows := [.delete] }]

namespace Screen

/-- Read a talk through a reference. -/
def read (screen : Screen) (accessor : Accessor) : Except Fault Talk :=
  match accessor.attached, screen.store.get? accessor.identifier with
  | true, some talk => .ok talk
  | _, _ => .error .invalidated

/-- Read the talk of the screen, if it has one. -/
def read? (screen : Screen) : Except Fault (Option Talk) :=
  match screen.talk with
  | none => .ok none
  | some accessor => (screen.read accessor).map some

/-- Write the talk of the screen, if it has one. -/
def setTalk (screen : Screen) (change : Talk → Talk) : Except Fault Screen :=
  match screen.talk with
  | none => .ok screen
  | some accessor => do
      let talk ← screen.read accessor
      return { screen with store := screen.store.upsert (change talk) }

/-- A write transaction. The error of a commit that fails is dropped. Such a commit is taken as
rolled back, so the store is as before; in the source the transaction is left open, with what
it wrote. -/
def write (screen : Screen) (commits : Bool) (block : Screen → Except Fault Screen) :
    Except Fault Screen := do
  let after ← block screen
  return if commits then after else { after with store := screen.store }

/-- Delete the talk of the screen. A reference that belongs to no store cannot be
deleted; one whose row is gone is just given up. -/
def deleteTalk (screen : Screen) : Except Fault Screen :=
  match screen.talk with
  | none => .ok screen
  | some accessor =>
      let released := some { accessor with attached := false, managed := false }
      if ¬ accessor.managed then .error .unmanaged
      else if accessor.attached then
        .ok { screen with store := screen.store.remove accessor.identifier, talk := released }
      else .ok { screen with talk := released, strayDeletes := screen.strayDeletes + 1 }

def configureView (strings : L10n) (screen : Screen) : Except Fault Screen :=
  match screen.talk with
  | none => .ok screen
  | some accessor => do
      let talk ← screen.read accessor
      return { screen with sections := sectionsOf strings talk }

/-- The updater of a talk; the one before stays when the identifier is not an UUID. -/
def withUpdater (screen : Screen) : Screen :=
  match screen.talk.bind fun accessor => UUID.ofString? accessor.identifier with
  | some uuid => { screen with updater := some uuid }
  | none => screen

/-- Assign the talk of the screen. -/
def assign (strings : L10n) (talk : Option Accessor) (screen : Screen) : Except Fault Screen := do
  let screen := { screen with talk }
  let shown ← screen.read?
  let screen := { screen with title := shown.bind Talk.name }.withUpdater
  if screen.isViewLoaded then screen.configureView strings else return screen

def viewDidLoad (strings : L10n) (screen : Screen) : Except Fault Screen :=
  { screen with isViewLoaded := true }.withUpdater.configureView strings

def section? (screen : Screen) (index : Nat) : Except Fault Section :=
  match screen.sections[index]? with
  | some found => .ok found
  | none => .error .indexOutOfRange

def row? (screen : Screen) (path : IndexPath) : Except Fault (Section × Row) := do
  let found ← screen.section? path.sectionIdx
  match found.rows[path.row]? with
  | some row => return (found, row)
  | none => .error .indexOutOfRange

/-- Send the talk as it is. -/
def sendUpdate (screen : Screen) : Except Fault Screen :=
  match screen.talk, screen.updater with
  | some accessor, some uuid => do
      let talk ← screen.read accessor
      return { screen with requests := screen.requests ++ [.updateTalk uuid talk.body] }
  | _, _ => .ok screen

/-- What a text typed under a title changes. -/
def typed (strings : L10n) (title text : Option String) (talk : Talk) : Talk :=
  if title = some strings.talkNameTitle then { talk with name := text }
  else { talk with speakerName := text }

def editingChanged (strings : L10n) (path : Option IndexPath) (text : Option String)
    (commits : Bool) (screen : Screen) : Except Fault Screen :=
  match path with
  | none => .ok screen
  | some path => do
      let (found, row) ← screen.row? path
      match row with
      | .editable _ _ => screen.write commits (·.setTalk (typed strings found.title text))
      | _ => return screen

def didEndEditing (strings : L10n) (path : Option IndexPath) (text : Option String)
    (screen : Screen) : Except Fault Screen :=
  match path with
  | none => .ok screen
  | some path => do
      let (found, row) ← screen.row? path
      match row with
      | .editable _ _ =>
          let titled :=
            if found.title = some strings.talkNameTitle then { screen with title := text }
            else screen
          titled.sendUpdate
      | _ => return screen

/-- The rows of the date section once the switch reports its state. -/
def switched (isOn : Bool) : List Row → List Row
  | .switch text _ :: rest => .switch text isOn :: rest
  | rows => rows

def toggleSwitch (strings : L10n) (path : Option IndexPath) (isOn : Bool) (now : Date)
    (commits : Bool) (screen : Screen) : Except Fault Screen :=
  match path with
  | none => .ok screen
  | some path => do
      let found ← screen.section? path.sectionIdx
      if isOn then
        let talk ← screen.read?
        let date := (talk.bind Talk.dueDate).getD now
        let rows := switched isOn (found.rows ++ [.date strings.talkDateAlarm date])
        return { screen with sections := screen.sections.set path.sectionIdx { found with rows } }
      else if found.rows.isEmpty then .error .negativeCount
      else
        let after ← screen.write commits fun screen => do
          let written ← screen.setTalk fun talk => { talk with dueDate := none }
          written.sendUpdate
        let rows := switched isOn (found.rows.take 1)
        return { after with sections := after.sections.set path.sectionIdx { found with rows } }

def toggleDatePicker (sectionIdx : Nat) (now : Date) (screen : Screen) : Except Fault Screen :=
  match screen.sections[sectionIdx]? with
  | none => .ok screen
  | some found =>
      match found.rows.getLast? with
      | some (.datePicker _) =>
          .ok { screen with
            sections := screen.sections.set sectionIdx { found with rows := found.rows.dropLast } }
      | _ => do
          let talk ← screen.read?
          let date := (talk.bind Talk.dueDate).getD now
          return { screen with
            sections := screen.sections.set sectionIdx
              { found with rows := found.rows ++ [.datePicker date] } }

def datePickerChanged (strings : L10n) (path : Option IndexPath) (date : Date) (commits : Bool)
    (screen : Screen) : Except Fault Screen :=
  match path with
  | none => .ok screen
  | some path => do
      let found ← screen.section? path.sectionIdx
      if found.rows.length ≤ 1 then .error .indexOutOfRange
      else
        let rows := found.rows.set 1 (.date strings.talkDateAlarm date)
        let screen := { screen with
          sections := screen.sections.set path.sectionIdx { found with rows } }
        screen.write commits fun screen => do
          let written ← screen.setTalk fun talk => { talk with dueDate := some date }
          written.sendUpdate

def textViewDidEndEditing (text : Option String) (commits : Bool) (screen : Screen) :
    Except Fault Screen :=
  screen.write commits fun screen => do
    let written ← screen.setTalk fun talk => { talk with notes := text }
    written.sendUpdate

/-- The request of the updater to delete its talk. -/
def sendDelete (screen : Screen) : Screen :=
  match screen.updater with
  | some uuid => { screen with requests := screen.requests ++ [.deleteTalk uuid] }
  | none => screen

/-- A tap on a row. After the delete row the screen can stay up, since it is only taken
away inside an outer navigation controller. -/
def didSelectRowAt (path : IndexPath) (now : Date) (screen : Screen) : Except Fault Screen := do
  let (_, row) ← screen.row? path
  match row with
  | .date _ _ => screen.toggleDatePicker path.sectionIdx now
  | .delete => do
      let after ← screen.deleteTalk
      return after.sendDelete
  | _ => return screen

/-- Another screen deletes the talk. -/
def swiped (screen : Screen) : Screen :=
  match screen.talk with
  | none => screen
  | some accessor => { screen with
      store := screen.store.remove accessor.identifier
      talk := some { accessor with attached := false } }

/-- A response with all talks is written; the talk stays if the response lists it. -/
def fetched (initials : Nat → Talk.Initial) (talks : List Response.Talk) (screen : Screen) :
    Screen :=
  let store := TalksFetcher.fetchAllSuccess initials screen.store talks
  { screen with
    store
    talk := screen.talk.map fun accessor =>
      { accessor with attached := accessor.attached && accessor.identifier ∈ store.keys } }

end Screen

/-- What can happen to the screen: events of its controls, and what others do to the
store. -/
inductive Event where
  | editingChanged (path : Option IndexPath) (text : Option String) (commits : Bool)
  | didEndEditing (path : Option IndexPath) (text : Option String)
  | toggleSwitch (path : Option IndexPath) (isOn : Bool) (now : Date) (commits : Bool)
  | datePickerChanged (path : Option IndexPath) (date : Date) (commits : Bool)
  | textViewDidEndEditing (text : Option String) (commits : Bool)
  | didSelectRowAt (path : IndexPath) (now : Date)
  | swiped
  | fetched (initials : Nat → Talk.Initial) (talks : List Response.Talk)

/-- What an event does. -/
def Screen.respond (strings : L10n) (screen : Screen) : Event → Except Fault Screen
  | .editingChanged path text commits => screen.editingChanged strings path text commits
  | .didEndEditing path text => screen.didEndEditing strings path text
  | .toggleSwitch path isOn now commits => screen.toggleSwitch strings path isOn now commits
  | .datePickerChanged path date commits => screen.datePickerChanged strings path date commits
  | .textViewDidEndEditing text commits => screen.textViewDidEndEditing text commits
  | .didSelectRowAt path now => screen.didSelectRowAt path now
  | .swiped => .ok screen.swiped
  | .fetched initials talks => .ok (screen.fetched initials talks)

/-- The screen that shows a talk of a store. -/
def shown (strings : L10n) (store : TalkStore) (identifier : String) : Except Fault Screen := do
  let made ← Screen.assign strings (some { identifier }) { store }
  made.viewDidLoad strings

/-- The screen under events in any order, until a fault stops it. -/
def system (strings : L10n) : System (Except Fault Screen) Event where
  step before event after := ∃ screen, before = .ok screen ∧ after = screen.respond strings event

end EventTalks.Detail

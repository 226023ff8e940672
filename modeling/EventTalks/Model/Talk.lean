import EventTalks.Foundation.KeyedTable
import EventTalks.Foundation.UUID
import EventTalks.Foundation.Date

/-! # Talks on the device and on the wire

The app declares a talk three times: the stored object (`EventTalks.Talk`), the
value decoded from a response (`EventTalks.Network.Response.Talk`) and the value
encoded into a request (`EventTalks.Network.Body.Talk`). Responses become
objects through `EventTalks.Talk.fromShared`.
-/

namespace EventTalks

open Foundation

/-- A talk as a response carries it. -/
structure Network.Response.Talk where
  id : Option String := none
  title : String
  notes : Option String := none
  date : Option Date := none
  speakerName : Option String := none
  dateCreated : Option Date := none
  dateModified : Option Date := none
deriving DecidableEq, Repr

/-- A talk as a request carries it. -/
structure Network.Body.Talk where
  title : Option String := none
  notes : Option String := none
  date : Option Date := none
  speakerName : Option String := none
deriving DecidableEq, Repr

/-- A talk as the device stores it. -/
structure Talk where
  identifier : String
  name : Option String
  notes : Option String
  dueDate : Option Date
  speakerName : Option String
  dateCreated : Date
  dateModified : Date
deriving DecidableEq, Repr

namespace Talk

/-- What the property initializers of one `Talk()` evaluate to: a new identifier
and two readings of the clock. -/
structure Initial where
  identifier : UUID
  dateCreated : Date
  dateModified : Date
deriving DecidableEq, Inhabited

/-- A new object, before any property is assigned. -/
def new (initial : Initial) : Talk where
  identifier := initial.identifier.uuidString
  name := none
  notes := none
  dueDate := none
  speakerName := none
  dateCreated := initial.dateCreated
  dateModified := initial.dateModified

/-- The object built from a response, `Talk.from(shared:)`. -/
def fromShared (initial : Initial) (shared : Network.Response.Talk) : Talk :=
  let talk := new initial
  let talk := match shared.id with
    | some identifier => { talk with identifier := identifier }
    | none => talk
  let talk := { talk with
    name := some shared.title
    notes := shared.notes
    dueDate := shared.date
    speakerName := shared.speakerName }
  let talk := match shared.dateCreated with
    | some dateCreated => { talk with dateCreated := dateCreated }
    | none => talk
  -- The source reads `shared.dateCreated` for both dates.
  match shared.dateCreated with
    | some dateModified => { talk with dateModified := dateModified }
    | none => talk

theorem fromShared_eq (initial : Initial) (shared : Network.Response.Talk) :
    fromShared initial shared =
      { identifier := shared.id.getD initial.identifier.uuidString
        name := some shared.title
        notes := shared.notes
        dueDate := shared.date
        speakerName := shared.speakerName
        dateCreated := shared.dateCreated.getD initial.dateCreated
        dateModified := shared.dateCreated.getD initial.dateModified } := by
  unfold fromShared
  cases shared.id <;> cases shared.dateCreated <;> rfl

@[simp] theorem fromShared_identifier (initial : Initial) (shared : Network.Response.Talk) :
    (fromShared initial shared).identifier = shared.id.getD initial.identifier.uuidString := by
  rw [fromShared_eq]

/-- The body of a request about a talk, as `TalksUpdater.update(talk:)` builds it. -/
def body (talk : Talk) : Network.Body.Talk where
  title := talk.name
  notes := talk.notes
  date := talk.dueDate
  speakerName := talk.speakerName

end Talk

/-- The talks stored on the device; the identifier is the primary key. -/
abbrev TalkStore := KeyedTable Talk.identifier

namespace Talk

/-- The object that `Talk.add(name:)` builds. -/
def named (initial : Initial) (name : String) : Talk := { new initial with name := some name }

/-- Add a talk under a name. The object is added without an update policy, so the
store raises an exception when it already has the identifier. -/
def add (initial : Initial) (name : String) (store : TalkStore) : Option TalkStore :=
  let talk := named initial name
  if talk.identifier ∈ store.keys then none else some (store.upsert talk)

/-- Delete a talk from the store. -/
def delete (talk : Talk) (store : TalkStore) : TalkStore := store.remove talk.identifier

end Talk

end EventTalks

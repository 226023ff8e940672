import EventTalks.Foundation.Json

/-! # Talks on the server

The server declares a talk twice: the entity, which is the table's row as well as
what requests and responses carry (`EventTalks.Server.Talk`), and the value
decoded from the body of an update (`EventTalks.Server.Talk.Update`). The coders
write and read properties under their names.
-/

namespace EventTalks.Server

open Foundation

/-- A talk of the server. -/
structure Talk where
  id : Option UUID := none
  title : String
  date : Option Date := none
  speakerName : Option String := none
  notes : Option String := none
  dateCreated : Option Date := none
  dateModified : Option Date := none
deriving DecidableEq

/-- What an update carries. -/
structure Talk.Update where
  title : Option String := none
  date : Option Date := none
  speakerName : Option String := none
  notes : Option String := none
deriving DecidableEq

namespace Talk

/-- A talk, encoded as content. -/
def encode (iso : ISO8601) (talk : Talk) : Json :=
  .object (Json.encodeIfPresent "id" Json.ofUUID talk.id ++
    Json.encode "title" Json.string talk.title ++
    Json.encodeIfPresent "date" (Json.ofDate iso) talk.date ++
    Json.encodeIfPresent "speakerName" Json.string talk.speakerName ++
    Json.encodeIfPresent "notes" Json.string talk.notes ++
    Json.encodeIfPresent "dateCreated" (Json.ofDate iso) talk.dateCreated ++
    Json.encodeIfPresent "dateModified" (Json.ofDate iso) talk.dateModified)

/-- A talk, decoded from content. -/
def decode (iso : ISO8601) (json : Json) : Except DecodingError Talk := do
  let members ← json.container
  let id ← Json.decodeIfPresent Json.asUUID members "id"
  let title ← Json.decode Json.asString members "title"
  let date ← Json.decodeIfPresent (Json.asDate iso) members "date"
  let speakerName ← Json.decodeIfPresent Json.asString members "speakerName"
  let notes ← Json.decodeIfPresent Json.asString members "notes"
  let dateCreated ← Json.decodeIfPresent (Json.asDate iso) members "dateCreated"
  let dateModified ← Json.decodeIfPresent (Json.asDate iso) members "dateModified"
  return { id, title, date, speakerName, notes, dateCreated, dateModified }

/-- An update, decoded from content. -/
def Update.decode (iso : ISO8601) (json : Json) : Except DecodingError Update := do
  let members ← json.container
  let title ← Json.decodeIfPresent Json.asString members "title"
  let date ← Json.decodeIfPresent (Json.asDate iso) members "date"
  let speakerName ← Json.decodeIfPresent Json.asString members "speakerName"
  let notes ← Json.decodeIfPresent Json.asString members "notes"
  return { title, date, speakerName, notes }

end Talk

end EventTalks.Server

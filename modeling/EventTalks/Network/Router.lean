import EventTalks.Model.Talk
import EventTalks.Foundation.Json

/-! # Requests of the app

The router names every request the app can make and turns it into a method, a
path and, for the two requests that carry a talk, a JSON body.
-/

namespace EventTalks.Network

open Foundation

/-- The requests of the app. -/
inductive Router where
  | allTalks
  | getTalk (id : UUID)
  | createTalk (body : Body.Talk)
  | updateTalk (id : UUID) (body : Body.Talk)
  | deleteTalk (id : UUID)
deriving DecidableEq

/-- A talk of a request, encoded: every present property under its name. -/
def Body.Talk.encode (iso : ISO8601) (talk : Body.Talk) : Json :=
  .object (Json.encodeIfPresent "title" Json.string talk.title ++
    Json.encodeIfPresent "notes" Json.string talk.notes ++
    Json.encodeIfPresent "date" (Json.ofDate iso) talk.date ++
    Json.encodeIfPresent "speakerName" Json.string talk.speakerName)

/-- A talk of a response, decoded. -/
def Response.Talk.decode (iso : ISO8601) (json : Json) : Except DecodingError Response.Talk := do
  let members ← json.container
  let id ← Json.decodeIfPresent Json.asString members "id"
  let title ← Json.decode Json.asString members "title"
  let notes ← Json.decodeIfPresent Json.asString members "notes"
  let date ← Json.decodeIfPresent (Json.asDate iso) members "date"
  let speakerName ← Json.decodeIfPresent Json.asString members "speakerName"
  let dateCreated ← Json.decodeIfPresent (Json.asDate iso) members "dateCreated"
  let dateModified ← Json.decodeIfPresent (Json.asDate iso) members "dateModified"
  return { id, title, notes, date, speakerName, dateCreated, dateModified }

/-- A location, by its text. -/
structure URL where
  string : String
deriving DecidableEq

/-- The path of a location: what follows the scheme and the authority. -/
def URL.path (url : URL) : String :=
  let afterScheme := (url.string.toList.dropWhile (· ≠ ':')).drop "://".length
  String.ofList (afterScheme.dropWhile (· ≠ '/'))

/-- A request as the session sends it. -/
structure URLRequest where
  url : URL
  httpMethod : String
  contentType : Option String := none
  httpBody : Option Json := none

namespace Router

/-- Where the server listens. -/
def baseURL : String := "http://localhost:8080"

/-- The path of a request. -/
def path : Router → String
  | allTalks | createTalk _ => "/v1/talks"
  | getTalk id | updateTalk id _ | deleteTalk id => "/v1/talks/" ++ id.uuidString

/-- The method of a request. -/
def method : Router → String
  | allTalks => "GET"
  | getTalk _ => "GET"
  | createTalk _ => "POST"
  | updateTalk _ _ => "PUT"
  | deleteTalk _ => "DELETE"

/-- The body of a request; encoding a talk never fails. -/
def body (iso : ISO8601) : Router → Option Json
  | allTalks => none
  | getTalk _ => none
  | createTalk body => some (body.encode iso)
  | updateTalk _ body => some (body.encode iso)
  | deleteTalk _ => none

/-- The request for the session. The base location followed by a path is always a
location, so the source's `fatalError` is unreachable. -/
def asURLRequest (iso : ISO8601) (router : Router) : URLRequest :=
  let request : URLRequest := { url := ⟨baseURL ++ router.path⟩, httpMethod := router.method }
  match router.body iso with
  | some body => { request with contentType := some "application/json", httpBody := some body }
  | none => request

@[simp] theorem asURLRequest_httpMethod (iso : ISO8601) (router : Router) :
    (router.asURLRequest iso).httpMethod = router.method := by
  unfold asURLRequest
  cases router.body iso <;> rfl

@[simp] theorem asURLRequest_httpBody (iso : ISO8601) (router : Router) :
    (router.asURLRequest iso).httpBody = router.body iso := by
  unfold asURLRequest
  cases router.body iso <;> rfl

@[simp] theorem asURLRequest_url (iso : ISO8601) (router : Router) :
    (router.asURLRequest iso).url = ⟨baseURL ++ router.path⟩ := by
  unfold asURLRequest
  cases router.body iso <;> rfl

/-- **What is sent is said to be JSON**, since the server picks a decoder by the type of the
content: the type is set exactly when there is a body. -/
theorem asURLRequest_contentType (iso : ISO8601) (router : Router) :
    (router.asURLRequest iso).contentType =
      (router.asURLRequest iso).httpBody.map fun _ => "application/json" := by
  rw [asURLRequest_httpBody]
  unfold asURLRequest
  cases router.body iso with
  | none => rfl
  | some body => rfl

/-- The location of a request has the router's path. -/
@[simp] theorem path_asURLRequest (iso : ISO8601) (router : Router) :
    (router.asURLRequest iso).url.path = router.path := by
  have leading : ∃ rest, router.path.toList = '/' :: rest := by
    cases router with
    | allTalks | createTalk _ =>
        rw [path]
        exact ⟨_, rfl⟩
    | getTalk id | updateTalk id _ | deleteTalk id =>
        rw [path, String.toList_append]
        exact ⟨_, rfl⟩
  obtain ⟨rest, path⟩ := leading
  have base : baseURL.toList = "http://localhost:8080".toList := rfl
  rw [asURLRequest_url, URL.path, String.toList_append, path, base]
  have text : String.ofList router.path.toList = router.path := String.ofList_toList
  rw [← text, path]
  rfl

end Router

end EventTalks.Network

import EventTalks.Server.TalksController
import EventTalks.Server.Routes
import EventTalks.Network.Request

/-! # What the server sends back

A request is dispatched to the action of the one route it matches; the action's result
becomes the content of the reply, and an error becomes an object with an error flag and
a reason.
-/

namespace EventTalks.Server

open Foundation Network

/-- A reply of the server. -/
structure Reply where
  status : Nat
  data : Data

/-- The reply to an action that throws. -/
def Reply.failure (status : Nat) (reason : String) : Reply where
  status := status
  data := .json (.object [("error", .bool true), ("reason", .string reason)])

/-- The reply to an action that returns content. -/
def Reply.content (json : Json) : Reply := ⟨200, .json json⟩

/-- The reply without content. -/
def Reply.noContent : Reply := ⟨204, .malformed⟩

/-- The table and the reply after a request. A talk that the request creates gets the
new identifier; the action for one talk and the update are not implemented. -/
def respond (iso : ISO8601) (new : UUID) (timestamps : Timestamps) (request : URLRequest)
    (database : Database) : Database × Reply :=
  match dispatch TalksController.boot request.httpMethod request.url.path with
  | [(.index, _)] =>
      (database, .content (.array ((TalksController.index database).map (Talk.encode iso))))
  | [(.create, _)] =>
      match request.httpBody.map (Talk.decode iso) with
      | some (.ok talk) =>
          let (database, row) := TalksController.create talk new timestamps database
          (database, .content (row.talk.encode iso))
      | _ => (database, .failure 400 "Bad Request")
  | [(.delete, parameters)] =>
      match parameters.map UUID.ofString? with
      | [some id] =>
          match TalksController.next id database with
          | some row => (TalksController.remove row.id database, .noContent)
          | none => (database, .failure 404 "Not Found")
      | _ => (database, .failure 500 "Internal Server Error")
  | _ => (database, .failure 404 "Not Found")

end EventTalks.Server

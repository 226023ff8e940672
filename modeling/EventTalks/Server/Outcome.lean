import EventTalks.Server.Respond

/-! # How actions end

An action returns content or ends with an error: one that it throws, one of the request
that it reads, or one of the database, whose queries can fail. Content and errors become
replies. With a database that never fails this is the server of
`EventTalks.Server.respond` (`EventTalks.Server.respond_eq_serve`).
-/

namespace EventTalks.Server

open Foundation Network

variable {ε : Type}

/-- Why an action ends with an error: `Abort(.notFound)`, a parameter or a body that cannot
be read, or an error of the database. -/
inductive ActionError (ε : Type) where
  | notFound
  | parameter
  | body
  | database (underlying : ε)

/-- What an action returns: talks, a talk, or just a status. -/
inductive Content where
  | talks (talks : List Talk)
  | talk (talk : Talk)
  | noContent

/-- The errors with which the database answers the query of an action that reads and the
one that writes, if it does. -/
structure Queries (ε : Type) where
  read : Option ε := none
  write : Option ε := none

/-- Make a query. -/
def query (failure : Option ε) : Except (ActionError ε) Unit :=
  match failure with
  | some underlying => .error (.database underlying)
  | none => .ok ()

namespace TalksController

def performIndex (queries : Queries ε) (database : Database) :
    Except (ActionError ε) (Database × Content) := do
  query queries.read
  return (database, .talks (index database))

/-- Decode the body and save the talk. -/
def performCreate (iso : ISO8601) (new : UUID) (timestamps : Timestamps) (queries : Queries ε)
    (body : Option Json) (database : Database) : Except (ActionError ε) (Database × Content) :=
  match body.map (Talk.decode iso) with
  | some (.ok talk) => do
      query queries.write
      let (database, row) := create talk new timestamps database
      return (database, .talk row.talk)
  | _ => .error .body

/-- Look the talk of the parameter up and delete it. -/
def performDelete (queries : Queries ε) (parameters : List String) (database : Database) :
    Except (ActionError ε) (Database × Content) :=
  match parameters.map UUID.ofString? with
  | [some id] => do
      query queries.read
      match next id database with
      | some row => do
          query queries.write
          return (remove row.id database, .noContent)
      | none => .error .notFound
  | _ => .error .parameter

end TalksController

open TalksController

/-- The action of the route that a request matches. The actions for one talk throw. -/
def perform (iso : ISO8601) (new : UUID) (timestamps : Timestamps) (queries : Queries ε)
    (request : URLRequest) (database : Database) : Except (ActionError ε) (Database × Content) :=
  match dispatch boot request.httpMethod request.url.path with
  | [(.index, _)] => performIndex queries database
  | [(.create, _)] => performCreate iso new timestamps queries request.httpBody database
  | [(.delete, parameters)] => performDelete queries parameters database
  | _ => .error .notFound

/-- The reply with what an action returned. -/
def Content.reply (iso : ISO8601) : Content → Reply
  | .talks listed => .content (.array (listed.map (Talk.encode iso)))
  | .talk stored => .content (stored.encode iso)
  | .noContent => .noContent

/-- What makes a reply of an error: a status that is no success, and an object with an
error and a reason. -/
structure ErrorMiddleware (ε : Type) where
  reply : ActionError ε → Reply
  status_reply : ∀ error, ¬ (200 ≤ (reply error).status ∧ (reply error).status < 300)
  data_reply : ∀ error, ∃ members, (reply error).data = .json (.object members) ∧
    ∀ key, key ∈ members.map Prod.fst ↔ key = "error" ∨ key = "reason"

/-- The reply to a request, by how its action ended. -/
def ErrorMiddleware.answer (middleware : ErrorMiddleware ε) (iso : ISO8601) :
    Except (ActionError ε) (Database × Content) → Reply
  | .ok (_, content) => content.reply iso
  | .error error => middleware.reply error

/-- The middleware of `respond`, which knows no errors of the database. -/
def failures : ErrorMiddleware Empty where
  reply
    | .notFound => .failure 404 "Not Found"
    | .body => .failure 400 "Bad Request"
    | .parameter => .failure 500 "Internal Server Error"
  status_reply error := by
    cases error with
    | notFound | body | parameter => simp [Reply.failure]
    | database underlying => exact underlying.elim
  data_reply error := by
    cases error with
    | notFound | body | parameter => exact ⟨_, rfl, by simp⟩
    | database underlying => exact underlying.elim

/-- The table once an action has ended; an error leaves it as it was. -/
def settled (database : Database) :
    Except (ActionError ε) (Database × Content) → Database
  | .ok (after, _) => after
  | .error _ => database

section NeverFailing

variable (iso : ISO8601) (new : UUID) (timestamps : Timestamps) (database : Database)

/-- Both parts of what the server does, by how an action ended. -/
def ErrorMiddleware.serve (middleware : ErrorMiddleware ε)
    (outcome : Except (ActionError ε) (Database × Content)) : Database × Reply :=
  (settled database outcome, middleware.answer iso outcome)

theorem serve_performCreate (body : Option Json) :
    failures.serve iso database (performCreate iso new timestamps {} body database) =
      match body.map (Talk.decode iso) with
      | some (.ok talk) =>
          let (database, row) := create talk new timestamps database
          (database, .content (row.talk.encode iso))
      | _ => (database, .failure 400 "Bad Request") := by
  unfold performCreate
  split <;> rfl

theorem serve_performDelete (parameters : List String) :
    failures.serve iso database (performDelete {} parameters database) =
      match parameters.map UUID.ofString? with
      | [some id] =>
          match next id database with
          | some row => (remove row.id database, .noContent)
          | none => (database, .failure 404 "Not Found")
      | _ => (database, .failure 500 "Internal Server Error") := by
  unfold performDelete
  split
  · simp only [query, ok_bind]
    split <;> rfl
  · rfl

/-- **The server of `respond` is the one whose database never fails.** -/
theorem respond_eq_serve (request : URLRequest) :
    respond iso new timestamps request database =
      failures.serve iso database (perform iso new timestamps {} request database) := by
  unfold respond perform
  generalize dispatch boot request.httpMethod request.url.path = matched
  rcases matched with _ | ⟨⟨action, parameters⟩, _ | ⟨other, later⟩⟩
  · rfl
  · cases action with
    | index | get | update => rfl
    | create => exact (serve_performCreate iso new timestamps database request.httpBody).symm
    | delete => exact (serve_performDelete iso database parameters).symm
  · cases action <;> rfl

end NeverFailing

end EventTalks.Server

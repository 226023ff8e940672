import EventTalks.Network.Router

/-! # Performing requests

A request calls its completion when it cannot be built, and when the session
hands back what it received. Each function below lists the completion calls of
one closure of the source, in the order in which it makes them.
-/

namespace EventTalks.Network

open Foundation

variable {α ε ρ : Type*}

/-- Why a request failed. -/
inductive EventsError (ε : Type*) where
  | route (underlying : ε)
  | request (underlying : ε)
  | noData
  | decoding (underlying : DecodingError)
deriving DecidableEq

/-- The bytes of a response: a JSON text or not. -/
inductive Data where
  | json (value : Json)
  | malformed

/-- Decode the bytes of a response. -/
def Data.decode (value : Json → Except DecodingError α) : Data → Except DecodingError α
  | .json content => value content
  | .malformed => .error .dataCorrupted

/-- The completion calls made before a task exists. -/
def startCompletions (request : Except ε URLRequest) : List (Except (EventsError ε) α) :=
  match request with
  | .ok _ => []
  | .error underlying => [.error (.route underlying)]

/-- The completion call that reports an error of the session, if there is one. -/
def reportCompletions (error : Option ε) : List (Except (EventsError ε) α) :=
  match error with
  | some underlying => [.error (.request underlying)]
  | none => []

/-- The completion calls of the task's handler in `request(_:type:completion:)`. The
branch on `error` does not return, so the handler goes on to `data`. -/
def taskCompletions (value : Json → Except DecodingError α) (data : Option Data)
    (error : Option ε) : List (Except (EventsError ε) α) :=
  reportCompletions error ++
    match data with
    | none => [.error .noData]
    | some data =>
        match data.decode value with
        | .ok object => [.ok object]
        | .error underlying => [.error (.decoding underlying)]

/-- The completion calls of the task's handler in `request(_:completion:)`, which
looks at the response and not at its bytes. -/
def responseCompletions (response : Option ρ) (error : Option ε) :
    List (Except (EventsError ε) ρ) :=
  reportCompletions error ++
    match response with
    | none => [.error .noData]
    | some response => [.ok response]

theorem length_reportCompletions (error : Option ε) :
    (reportCompletions (α := α) error).length = if error.isSome then 1 else 0 := by
  cases error <;> rfl

/-- **How often the completion is called.** Once when the session reports no error,
twice when it does. -/
theorem length_taskCompletions (value : Json → Except DecodingError α) (data : Option Data)
    (error : Option ε) :
    (taskCompletions value data error).length = (if error.isSome then 1 else 0) + 1 := by
  unfold taskCompletions
  rw [List.length_append, length_reportCompletions]
  cases data with
  | none => rfl
  | some data =>
      simp only
      cases data.decode value <;> rfl

end EventTalks.Network

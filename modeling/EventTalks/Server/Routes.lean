import EventTalks.Foundation.UUID

/-! # The route table

The talks controller registers five routes below `v1/talks`. A route matches a
request with its method whose path has the route's constant components and any
component where the route has a parameter; matching captures these components.
-/

namespace EventTalks.Server

open Foundation

/-- A component of a route's path. -/
inductive PathComponent where
  | constant (text : String)
  | parameter
deriving DecidableEq

/-- The actions of the talks controller. -/
inductive Action where
  | index
  | get
  | update
  | create
  | delete
deriving DecidableEq

/-- A registered route. -/
structure Route where
  method : String
  path : List PathComponent
  action : Action
deriving DecidableEq

/-- The components of a path. -/
def pathComponents (path : String) : List String :=
  ((path.toList.splitOn '/').filter (· ≠ [])).map String.ofList

/-- The components at the parameters of a path, if the other components agree. -/
def captures : List PathComponent → List String → Option (List String)
  | [], [] => some []
  | .constant text :: path, component :: components =>
      if text = component then captures path components else none
  | .parameter :: path, component :: components =>
      (captures path components).map (component :: ·)
  | [], _ :: _ => none
  | _ :: _, [] => none

/-- The parameters of a request, if the route matches it. -/
def Route.parameters? (route : Route) (method path : String) : Option (List String) :=
  if route.method = method then captures route.path (pathComponents path) else none

/-- The routes that match a request, each as its action and the parameters. -/
def dispatch (routes : List Route) (method path : String) : List (Action × List String) :=
  routes.filterMap fun route => (route.parameters? method path).map (route.action, ·)

namespace TalksController

/-- A route below `v1/talks`. -/
def route (method : String) (path : List PathComponent) (action : Action) : Route where
  method := method
  path := [.constant "v1", .constant "talks"] ++ path
  action := action

/-- The routes that the controller registers. -/
def boot : List Route :=
  [route "GET" [] .index,
    route "GET" [.parameter] .get,
    route "PUT" [.parameter] .update,
    route "POST" [] .create,
    route "DELETE" [.parameter] .delete]

end TalksController

end EventTalks.Server

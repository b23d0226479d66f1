import EdgeGateway.Route.Rule
import EdgeGateway.Time.Rfc3339

/-!
# Routes

A route sends the requests whose path one of its `Path` rules accepts to a destination. The match
order of routes is by `order`, then by id; `version` counts the updates that a store has kept.
-/

namespace EdgeGateway

/-- A rule set for requests and where they go. -/
structure Route where
  id : String
  uri : String
  predicates : List Rule
  filters : List Rule
  order : Int32
  createdAt : Option Instant
  updatedAt : Option Instant
  version : Int64
  deriving DecidableEq, Inhabited

/-- Why a route is not acceptable. -/
inductive RouteFault
  | idEmpty
  | idTooLong (id : String)
  | idHasBlank (id : String)
  | uriNotAbsolute (uri : String)
  deriving DecidableEq, Inhabited

namespace RouteFault

def message : RouteFault → String
  | idEmpty => "id must not be empty"
  | idTooLong id => s!"id '{id}' exceeds 64 characters"
  | idHasBlank id => s!"id '{id}' contains whitespace"
  | uriNotAbsolute uri => s!"uri '{uri}' must be absolute (scheme://...)"

end RouteFault

namespace Route

/-- The largest number of characters of an id. -/
def maxIdLength : Nat := 64

/-- A route with an id and a destination and nothing else. -/
def simple (id uri : String) : Route := ⟨id, uri, [], [], 0, none, none, 0⟩

/-- The text has `://` in it. -/
def hasScheme : List Char → Bool
  | [] => false
  | c :: cs => (c :: cs.take 2 == [':', '/', '/']) || hasScheme cs

/-- The first fault of a route, if it has one. -/
def fault? (r : Route) : Option RouteFault :=
  let id := r.id.toList
  if id.isEmpty then some .idEmpty
  else if maxIdLength < id.length then some (.idTooLong r.id)
  else if id.any Text.isBlank then some (.idHasBlank r.id)
  else if (Text.trim r.uri.toList).isEmpty || !hasScheme r.uri.toList then
    some (.uriNotAbsolute r.uri)
  else none

/-- A route without faults. -/
def Valid (r : Route) : Prop := r.fault? = none

instance (r : Route) : Decidable r.Valid := by unfold Valid; infer_instance

/-- A `Path` rule of the route accepts the path; without such a rule none is accepted. -/
def matchesPath (r : Route) (path : String) : Bool :=
  (r.predicates.filter Rule.isPath).any fun p => p.acceptsPath path

/-- The match order: by `order`, then by id. -/
def before (a b : Route) : Prop := a.order < b.order ∨ a.order = b.order ∧ a.id < b.id

instance (a b : Route) : Decidable (a.before b) := by unfold before; infer_instance

end Route
end EdgeGateway

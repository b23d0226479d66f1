import EdgeGateway.Route.Basic

/-!
# The route table

A table is an immutable snapshot of the active routes: each is kept under its id, and all of them
stand in a list in match order that is computed once per snapshot. The first route of that list
that accepts a path is the answer to a look-up.
-/

namespace EdgeGateway

/-- A snapshot of the active routes, by id and in match order. -/
structure RouteTable where
  routes : KeyMap Route
  ordered : List Route
  deriving DecidableEq, Inhabited

namespace RouteTable

/-- The table of a map from ids to routes. -/
def ofMap (routes : KeyMap Route) : RouteTable :=
  ⟨routes, routes.values.mergeSort fun a b => !decide (b.before a)⟩

def empty : RouteTable := ⟨.empty, []⟩

/-- The table of a list of routes; of two with one id the later stays. -/
def ofRoutes (rs : List Route) : RouteTable :=
  ofMap (.ofList (rs.map fun r => (r.id, r)))

def get? (t : RouteTable) (id : String) : Option Route := t.routes.get? id

def contains (t : RouteTable) (id : String) : Bool := t.routes.contains id

def size (t : RouteTable) : Nat := t.routes.size

def isEmpty (t : RouteTable) : Bool := t.routes.entries.isEmpty

/-- The table with the route in it, in place of one with the same id. -/
def upsert (t : RouteTable) (r : Route) : RouteTable := ofMap (t.routes.insert r.id r)

/-- The table without the route of that id. -/
def erase (t : RouteTable) (id : String) : RouteTable := ofMap (t.routes.erase id)

/-- The ids in match order. -/
def ids (t : RouteTable) : List String := t.ordered.map Route.id

/-- The first route, in match order, that accepts the path. -/
def find? (t : RouteTable) (path : String) : Option Route :=
  t.ordered.find? fun r => r.matchesPath path

end RouteTable
end EdgeGateway

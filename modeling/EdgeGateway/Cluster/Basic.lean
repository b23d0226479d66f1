import EdgeGateway.Cluster.Node
import EdgeGateway.Store.Basic

/-!
# A cluster of nodes over one store

The nodes share the route store. A write goes to the store first, and then an event tells every
node of it, the writer included; no node changes its table before an event reaches it. Each node
has an inbox of events, from which they may be applied late, out of order, more than once or never.
A lost event is repaired by the next reload.
-/

namespace EdgeGateway

/-- A node with the events that have reached it and have not been applied. -/
structure Member where
  node : Node
  inbox : List Event
  deriving Inhabited

/-- The nodes, the store, and all events that were sent since they were last looked at. -/
structure Cluster where
  members : List Member
  store : RouteStore
  busUp : Bool
  sent : List Event
  deriving Inhabited

namespace Cluster

/-- A cluster of `n` nodes over an empty store. -/
def start (n : Nat) : Cluster := ⟨.replicate n ⟨.initial, []⟩, .empty, true, []⟩

def node (c : Cluster) (i : Nat) : Node := (c.members[i]?.map (·.node)).getD .initial

def inbox (c : Cluster) (i : Nat) : List Event := (c.members[i]?.map (·.inbox)).getD []

def setNode (c : Cluster) (i : Nat) (n : Node) : Cluster :=
  { c with members := c.members.modify i fun m => { m with node := n } }

def setInbox (c : Cluster) (i : Nat) (es : List Event) : Cluster :=
  { c with members := c.members.modify i fun m => { m with inbox := es } }

/-- Sends an event to every node; `none` when the bus is down. -/
def publish? (c : Cluster) (e : Event) : Option Cluster :=
  if c.busUp then
    some { c with
      members := c.members.map fun m => { m with inbox := m.inbox ++ [e] }
      sent := c.sent ++ [e] }
  else none

/-- Tells of a change that the store already holds: a lost event is no failure. -/
def announce (c : Cluster) (change : Change) : Cluster := (c.publish? change.toEvent).getD c

/-! ### Operations of a node -/

/-- Adds a route that neither the node's table nor the store has. -/
def add (c : Cluster) (i : Nat) (r : Route) (now : Int) : Except GatewayError Route × Cluster :=
  match r.fault? with
  | some f => (.error (.invalidRoute f.message), c)
  | none =>
    if (c.node i).table.contains r.id then (.error (.duplicateId r.id), c)
    else
      match c.store.insert r now with
      | (.error (.duplicate id), s) => (.error (.duplicateId id), { c with store := s })
      | (.error e, s) => (.error (.store e), { c with store := s })
      | (.ok stored, s) => (.ok stored, { c with store := s }.announce (.add stored))

/-- Changes the route that the store has at the version of `r`. -/
def update (c : Cluster) (r : Route) (now : Int) : Except GatewayError Route × Cluster :=
  match r.fault? with
  | some f => (.error (.invalidRoute f.message), c)
  | none =>
    match c.store.update r now with
    | (.error e, s) => (.error (.store e), { c with store := s })
    | (.ok none, s) => (.error (.notFound r.id), { c with store := s })
    | (.ok (some stored), s) => (.ok stored, { c with store := s }.announce (.update stored))

/-- Deletes the route of an id. -/
def delete (c : Cluster) (id : String) : Except GatewayError Unit × Cluster :=
  match c.store.delete id with
  | (.error e, s) => (.error (.store e), { c with store := s })
  | (.ok false, s) => (.error (.notFound id), { c with store := s })
  | (.ok true, s) => (.ok (), { c with store := s }.announce (.delete id))

/-- The route of an id in the node's table. -/
def get (c : Cluster) (i : Nat) (id : String) : Except GatewayError Route :=
  match (c.node i).table.get? id with
  | some r => .ok r
  | none => .error (.notFound id)

/-- The node reads the store, and holds its apply lock until it installs what it read. -/
def beginReload (c : Cluster) (i : Nat) : Cluster :=
  c.setNode i ((c.node i).beginReload c.store.list)

/-- The node installs what it read. -/
def endReload (c : Cluster) (i : Nat) : Except GatewayError Nat × Cluster :=
  let (r, n) := (c.node i).endReload
  (r, c.setNode i n)

/-- The node replaces its table by what the store lists. -/
def reload (c : Cluster) (i : Nat) : Except GatewayError Nat × Cluster :=
  (c.beginReload i).endReload i

/-- Asks every node to reload. -/
def broadcastReload (c : Cluster) : Except GatewayError Unit × Cluster :=
  match c.publish? Change.reload.toEvent with
  | some c => (.ok (), c)
  | none => (.error (.broadcast "broker unreachable"), c)

/-! ### Delivery -/

/-- The node applies an event. -/
def receive (c : Cluster) (i : Nat) (e : Event) : Except GatewayError Unit × Cluster :=
  match e.change with
  | .error m => (.error (.invalidRoute m.message), c)
  | .ok .reload =>
    let (r, c) := c.reload i
    (r.map fun _ => (), c)
  | .ok change => (.ok (), c.setNode i ((c.node i).apply change))

/-- Takes the event at a place of the node's inbox and applies it; nothing if there is none. -/
def deliver (c : Cluster) (i at_ : Nat) : Option (Event × Except GatewayError Unit) × Cluster :=
  match (c.inbox i)[at_]? with
  | none => (none, c)
  | some e =>
    let (r, c) := (c.setInbox i ((c.inbox i).eraseIdx at_)).receive i e
    (some (e, r), c)

/-- Applies the first event of the node's inbox and keeps it there. -/
def redeliver (c : Cluster) (i : Nat) : Option (Except GatewayError Unit) × Cluster :=
  match (c.inbox i).head? with
  | none => (none, c)
  | some e =>
    let (r, c) := c.receive i e
    (some r, c)

/-- Applies the first `n` events of the node's inbox in order. -/
def drain (c : Cluster) (i : Nat) : Nat → Cluster
  | 0 => c
  | n + 1 => ((c.deliver i 0).2).drain i n

end Cluster
end EdgeGateway

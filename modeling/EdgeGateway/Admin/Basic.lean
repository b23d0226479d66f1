import EdgeGateway.Admin.Endpoint
import EdgeGateway.Admin.Reply
import EdgeGateway.Cluster.Basic

/-!
# The admin interface

Routes and blacklist entries are looked at and changed over HTTP. A change of the routes goes to the
store and then to all nodes; the table of the node that was asked follows when the event reaches
it. A request that is refused changes nothing.
-/

namespace EdgeGateway

open Admin Json

/-- What the admin interface of a node works on. -/
structure Admin where
  cluster : Cluster
  node : Nat
  blacklist : Blacklist
  deriving Inhabited

namespace Admin

/-- The body of a request: all of it, or why it could not be read. -/
inductive Body
  | complete (bytes : ByteArray)
  | broken (detail : String)
  deriving Inhabited

/-- Reads the body of a request. -/
def Body.read {α : Type} (f : ByteArray → Decoded α) : Body → Except Refusal α
  | complete b => (f b).mapError .badJson
  | broken detail => .error (.unreadableBody detail)

/-- A request to list an address: for some seconds, or for ever. -/
structure Listing where
  ip : String
  ttl : Option UInt64
  deriving DecidableEq, Inhabited

namespace Listing

/-- The fields that have been read. -/
structure Draft where
  ip : Option String := none
  ttl : Option (Option UInt64) := none

/-- Reads one member. -/
def Draft.field (d : Draft) (key : String) (t : Tree) : Decoded Draft :=
  match key with
  | "ip" => return { d with ip := ← Decode.once d.ip (Decode.text t) }
  | "ttlSecs" =>
    return { d with ttl := ← Decode.once d.ttl (Decode.optional Blacklist.Entry.uint64 t) }
  | _ => Decode.ignore d t

def ofTree (t : Tree) : Decoded Listing := do
  let d ← Decode.record ["ip", "ttlSecs"] 2 Draft.field {} t
  return ⟨← Decode.require "ip" d.ip, d.ttl.getD none⟩

end Listing

/-- Lists an address. -/
def list (b : Blacklist) (l : Listing) (now : UInt64) : Except Refusal Blacklist :=
  match l.ttl with
  | some 0 => .error .zeroTtl
  | some s => (b.addFor l.ip now (.ofSeconds s.toNat)).mapError .badAddress
  | none => (b.add l.ip 0).mapError .badAddress

/-- The reply to an operation on the routes. -/
def reply {α : Type} (f : α → Reply) : Except GatewayError α → Reply
  | .ok a => f a
  | .error e => .refused (.gateway e)

/-- Answers a request. The clocks of the blacklist show `at_`, and the clock of the store `now`
milliseconds. -/
def handle (a : Admin) (e : Endpoint) (body : Body) (at_ : Blacklist.Readings) (now : Int) :
    Reply × Admin :=
  match e with
  | .health => (.healthy (a.cluster.node a.node).table.size, a)
  | .listRoutes => (.routes (a.cluster.node a.node).table.ordered, a)
  | .getRoute id => (reply (.route false) (a.cluster.get a.node id), a)
  | .reload =>
    let (r, c) := a.cluster.reload a.node
    (reply .count r, { a with cluster := c })
  | .broadcastReload =>
    let (r, c) := a.cluster.broadcastReload
    (reply (fun _ => .done 202 "Reload broadcast") r, { a with cluster := c })
  | .addRoute =>
    match body.read Route.decode with
    | .error e => (.refused e, a)
    | .ok route =>
      let (r, c) := a.cluster.add a.node route now
      (reply (.route true) r, { a with cluster := c })
  | .updateRoute =>
    match body.read Route.decode with
    | .error e => (.refused e, a)
    | .ok route =>
      let (r, c) := a.cluster.update route now
      (reply (.route false) r, { a with cluster := c })
  | .deleteRoute id =>
    let (r, c) := a.cluster.delete id
    (reply (fun _ => .done 200 "Route deleted") r, { a with cluster := c })
  | .listBlacklist =>
    (.blacklist a.blacklist.fixedEntries
      ((a.blacklist.entries at_.wall).map fun (ip, expiry) => ⟨ip, expiry⟩), a)
  | .addAddress =>
    match (body.read (Decode.document Listing.ofTree)).bind fun l =>
      list a.blacklist l at_.wall with
    | .error e => (.refused e, a)
    | .ok b => (.done 201 "IP blacklisted", { a with blacklist := b })
  | .removeAddress ip =>
    let (found, b) := a.blacklist.remove ip
    if found then (.done 200 "IP removed from blacklist", { a with blacklist := b })
    else (.refused .notListed, a)
  | .reloadBlacklist =>
    let (r, b) := a.blacklist.reload at_.refresh
    (match r with
      | .ok n => .count n
      | .error e => .refused (.listUnavailable e), { a with blacklist := b })
  | .unknown => (.refused .noEndpoint, a)

end Admin
end EdgeGateway

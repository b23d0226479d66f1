import EdgeGateway.Edge.Filter
import EdgeGateway.Proxy.Target
import EdgeGateway.RequestId.Generator
import EdgeGateway.Route.Table

/-!
# The gateway

A request passes the edge filter, is given the first route that accepts its path, a new id and a
target, is stamped with the id and the route, and is sent. Where one of these fails the gateway
answers itself and sends nothing.
-/

namespace EdgeGateway

open Http Edge

/-- The gateway: its filter, the active routes, the source of ids, the blacklist, and the engine
that takes what is not sent to a web server directly. -/
structure Proxy where
  filter : Filter
  table : RouteTable
  ids : RequestId.Generator
  blacklist : Blacklist
  engine : String

namespace Proxy

/-- What becomes of a request. -/
inductive Outcome
  | denied
  | noRoute
  | noId
  | noTarget
  | sent (target : Uri) (request : Request)
  deriving DecidableEq, Inhabited

/-- A response of plain text. -/
def plain (status : Nat) (text : String) : Response := ⟨status, "text/plain", text⟩

/-- The answer to a request that could not be delivered. -/
def undelivered : Response := plain 502 "502 Bad Gateway - Upstream Error"

/-- The stamps of the gateway. -/
def targetHeader : String := "x-gateway-target"

def idHeader : String := "x-request-id"

def routeHeader : String := "x-gateway-route"

/-- The headers of a request that is sent by a route under an id. -/
def stamp (r : Route) (id : UInt64) (h : Headers) : Headers :=
  let h := if r.isDirect then h.remove "host" else h.setText targetHeader r.uri.toList
  (h.setText idHeader (toString id).toList).setText routeHeader r.id.toList

/-- The path and the query that a request is sent with. -/
def sentPath (u : Uri) : List Char := u.pathAndQueryText.getD u.effectivePath

/-- What becomes of a filtered request that has a route and an id. -/
def dispatch (p : Proxy) (r : Route) (id : UInt64) (q : Request) : Outcome :=
  match target? r p.engine.toList (sentPath q.uri) with
  | none => .noTarget
  | some t => .sent t { q with uri := t, headers := stamp r id q.headers }

/-- Handles a request that came over a connection with `peer`. The clock of the ids has the given
readings to come, of which those that are left are returned; `none` when they end while the source
of ids is still waiting. -/
def handle? (p : Proxy) (q : Request) (peer : Address) (at_ : Blacklist.Readings)
    (readings : List UInt64) : Option (Outcome × Proxy × List UInt64) :=
  let path := String.ofList q.uri.effectivePath
  match p.filter.filter q peer p.blacklist at_ with
  | (.deny, b) => some (.denied, { p with blacklist := b }, readings)
  | (.forward q _, b) =>
    let p := { p with blacklist := b }
    match p.table.find? path with
    | none => some (.noRoute, p, readings)
    | some r =>
      (p.ids.next? readings).map fun (id, g, readings) =>
        let p := { p with ids := g }
        match id with
        | .error _ => (.noId, p, readings)
        | .ok id => (p.dispatch r id q, p, readings)

/-- What a server makes of a request: a response, or nothing if it cannot be reached. -/
abbrev Server := Uri → Request → Option Response

/-- Only the `http` scheme can be dialed, and only with an authority. -/
def isDialable (u : Uri) : Bool := u.scheme == some "http".toList && u.authority.isSome

/-- The response to a request. -/
def Outcome.response (server : Server) : Outcome → Response
  | denied => Filter.denial
  | noRoute => plain 404 "404 Not Found - No matching route"
  | noId => plain 503 "503 Service Unavailable - Request id source halted"
  | noTarget => plain 502 "502 Bad Gateway - Invalid route target"
  | sent t q => if isDialable t then (server t q).getD undelivered else undelivered

end Proxy
end EdgeGateway

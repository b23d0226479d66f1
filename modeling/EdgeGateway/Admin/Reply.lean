import EdgeGateway.Blacklist.Basic
import EdgeGateway.Blacklist.Entry
import EdgeGateway.Error
import EdgeGateway.Http.Message
import EdgeGateway.Route.Codec

/-!
# Replies of the admin interface

A reply tells whether the request succeeded, has a message, and may carry data.
-/

namespace EdgeGateway.Admin

open Json

/-- Why a request fails. -/
inductive Refusal
  | badJson (e : DecodeError)
  | unreadableBody (detail : String)
  | gateway (e : GatewayError)
  | badAddress (e : Blacklist.Failure)
  | zeroTtl
  | notListed
  | listUnavailable (e : Blacklist.Failure)
  | noEndpoint
  deriving DecidableEq, Inhabited

namespace Refusal

def message : Refusal → String
  | badJson e => s!"Invalid JSON: {e.message}"
  | unreadableBody detail => s!"Failed to read body: {detail}"
  | gateway e => e.message
  | badAddress e => e.message
  | zeroTtl => "ttlSecs must be positive"
  | notListed => "IP not in dynamic blacklist"
  | listUnavailable _ => "Failed to reload static blacklist"
  | noEndpoint => "Endpoint not found"

def status : Refusal → Nat
  | badJson _ | unreadableBody _ | badAddress _ | zeroTtl => 400
  | gateway e => e.status
  | notListed | noEndpoint => 404
  | listUnavailable _ => 500

end Refusal

/-- An answer to a request. -/
inductive Reply
  | healthy (routes : Nat)
  | routes (rs : List Route)
  | route (created : Bool) (r : Route)
  | count (n : Nat)
  | blacklist (fixed : List String) (dynamic : List Blacklist.Entry)
  | done (status : Nat) (message : String)
  | refused (r : Refusal)
  deriving DecidableEq, Inhabited

namespace Reply

/-- A response with a JSON value. -/
def json (status : Nat) (t : Tree) : Http.Response := ⟨status, "application/json", t.compress⟩

/-- A response with data. -/
def success (status : Nat) (data : Tree) : Http.Response :=
  json status (.ofMembers [("success", .bool true), ("message", .str "Success"), ("data", data)])

/-- A response with a message only. -/
def note (success : Bool) (status : Nat) (message : String) : Http.Response :=
  json status (.ofMembers [("success", .bool success), ("message", .str message)])

/-- The response of a reply. -/
def response : Reply → Http.Response
  | healthy n => json 200 (.ofMembers
      [("route_count", .int n), ("service", .str "aegis-gateway"), ("status", .str "healthy")])
  | routes rs => success 200 (.array (rs.map Route.toTree))
  | route created r => success (if created then 201 else 200) r.toTree
  | count n => success 200 (.ofMembers [("count", .int n)])
  | blacklist fixed dynamic => success 200 (.ofMembers
      [("static", .array (fixed.map .str)), ("dynamic", .array (dynamic.map (·.toTree)))])
  | done status message => note true status message
  | refused r => note false r.status r.message

end Reply
end EdgeGateway.Admin

import EdgeGateway.Error
import EdgeGateway.Route.Codec

/-!
# Rows of the route store

The store keeps a route as a row: its rules as JSON text, its times in milliseconds, and its order,
version and validity as integers that other writers may have set to anything. A row is read back
into a route when its integers fit and its rules can be decoded.
-/

namespace EdgeGateway.Store

open Json

/-- A row; the id is its key. -/
structure Row where
  uri : String
  predicates : String
  filters : String
  createTime : Int
  updateTime : Int
  version : Int
  valid : Bool
  order : Int
  deriving DecidableEq, Inhabited

/-- The JSON text of a list of rules. -/
def encodeRules (rs : List Rule) : String := (Tree.array (rs.map Rule.toTree)).compress

/-- Reads a list of rules from its JSON text. -/
def decodeRules (text : String) : Except StoreError (List Rule) :=
  match Decode.document (Decode.list (Rule.ofTree 1)) text.toUTF8 with
  | .ok rs => .ok rs
  | .error e => .error (.serialization e.message)

namespace Row

/-- The integers of the row fit those of a route. -/
def fits (r : Row) : Bool :=
  -0x8000000000000000 ≤ r.version && r.version ≤ 0x7FFFFFFFFFFFFFFF &&
    -0x80000000 ≤ r.order && r.order ≤ 0x7FFFFFFF

/-- The row's rules as a route's. -/
def toRoute (r : Row) (id : String) : Except StoreError Route := do
  let predicates ← decodeRules r.predicates
  let filters ← decodeRules r.filters
  return {
    id := id, uri := r.uri, predicates := predicates, filters := filters,
    order := Int32.ofInt r.order, createdAt := Instant.ofMillis? r.createTime,
    updatedAt := Instant.ofMillis? r.updateTime, version := Int64.ofInt r.version }

/-- Reads the row back into a route. -/
def read (r : Row) (id : String) : Except StoreError Route :=
  if r.fits then r.toRoute id else .error (.database "integer out of range")

/-- The row of a new route: what it says about its version and its times does not count. -/
def ofRoute (r : Route) (now : Int) : Row where
  uri := r.uri
  predicates := encodeRules r.predicates
  filters := encodeRules r.filters
  createTime := now
  updateTime := now
  version := 0
  valid := true
  order := r.order.toInt

/-- The row after an update. -/
def updated (old : Row) (r : Route) (now : Int) : Row :=
  { old with
    uri := r.uri, predicates := encodeRules r.predicates, filters := encodeRules r.filters,
    order := r.order.toInt, updateTime := now, version := old.version + 1 }

end Row
end EdgeGateway.Store

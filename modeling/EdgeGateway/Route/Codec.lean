import EdgeGateway.Route.Basic
import EdgeGateway.Json.Decode
import EdgeGateway.Json.Printer

/-!
# Routes as JSON

A route is written as an object with its fields in a fixed order; times that are not set are left
out.

A rule may be a shortcut text or an object with a name and arguments. A rule is held in memory as a
whole before it is looked at, which bounds how deeply it may nest.
-/

namespace EdgeGateway

open Json

namespace Rule

/-- The members of a rule that are of interest: its name and its arguments, each at most once. -/
def memberOnce? (key : String) (ms : List (Option String × Tree)) : Option (Option Tree) :=
  match ms.filter fun m => m.1 == some key with
  | [] => some none
  | [m] => some (some m.2)
  | _ => none

/-- An argument: a member whose value is a text. -/
def arg? : Option String × Tree → Option (String × String)
  | (some k, .text (some v)) => some (k, v)
  | _ => none

/-- An object of texts; of two members with one key the later stays. -/
def args? : Tree → Option (KeyMap String)
  | .object ms => (ms.mapM arg?).map KeyMap.ofList
  | _ => none

/-- A rule in its object form. -/
def ofMembers? (ms : List (Option String × Tree)) : Option Rule := do
  let name ← memberOnce? "name" ms
  let args ← memberOnce? "args" ms
  match name with
  | some (.text (some n)) =>
    match args with
    | none => some (named n)
    | some t => (args? t).map fun a => ⟨n, a⟩
  | _ => none

/-- Reads a rule inside `depth` brackets. -/
def ofTree (depth : Nat) (t : Tree) : Decoded Rule :=
  if t.isPlain (maxNesting - depth) then
    match t with
    | .text (some s) =>
      match ofShortcut? s with
      | some r => .ok r
      | none => .error (.unnamedRule s)
    | .object ms =>
      match ofMembers? ms with
      | some r => .ok r
      | none => .error .malformed
    | _ => .error .malformed
  else .error .malformed

def toTree (r : Rule) : Tree :=
  .ofMembers [("name", .str r.name),
    ("args", .ofMembers (r.args.entries.map fun (k, v) => (k, .str v)))]

end Rule

namespace Route

/-- The fields of a route that have been read. -/
structure Draft where
  id : Option String := none
  uri : Option String := none
  predicates : Option (List Rule) := none
  filters : Option (List Rule) := none
  order : Option Int32 := none
  createdAt : Option (Option Instant) := none
  updatedAt : Option (Option Instant) := none
  version : Option Int64 := none

namespace Draft

def instant (t : Tree) : Decoded Instant := do
  match Rfc3339.parse? (← Decode.text t).toList with
  | some i => .ok i
  | none => .error .malformed

def int32 (t : Tree) : Decoded Int32 :=
  (Decode.integer (-0x80000000) 0x7FFFFFFF t).map Int32.ofInt

def int64 (t : Tree) : Decoded Int64 :=
  (Decode.integer (-0x8000000000000000) 0x7FFFFFFFFFFFFFFF t).map Int64.ofInt

/-- Reads one member of a route that is inside `depth` brackets. -/
def field (depth : Nat) (d : Draft) (key : String) (t : Tree) : Decoded Draft :=
  let rules := Decode.list (Rule.ofTree (depth + 1))
  match key with
  | "id" => return { d with id := ← Decode.once d.id (Decode.text t) }
  | "uri" => return { d with uri := ← Decode.once d.uri (Decode.text t) }
  | "predicates" => return { d with predicates := ← Decode.once d.predicates (rules t) }
  | "filters" => return { d with filters := ← Decode.once d.filters (rules t) }
  | "order" => return { d with order := ← Decode.once d.order (int32 t) }
  | "createdAt" =>
    return { d with createdAt := ← Decode.once d.createdAt (Decode.optional instant t) }
  | "updatedAt" =>
    return { d with updatedAt := ← Decode.once d.updatedAt (Decode.optional instant t) }
  | "version" => return { d with version := ← Decode.once d.version (int64 t) }
  | _ => Decode.ignore d t

/-- The route, once all its fields have been read. -/
def finish (d : Draft) : Decoded Route :=
  return {
    id := ← Decode.require "id" d.id
    uri := ← Decode.require "uri" d.uri
    predicates := d.predicates.getD []
    filters := d.filters.getD []
    order := d.order.getD 0
    createdAt := d.createdAt.getD none
    updatedAt := d.updatedAt.getD none
    version := d.version.getD 0 }

/-- The fields in order, when a route is written as an array. -/
def names : List String :=
  ["id", "uri", "predicates", "filters", "order", "createdAt", "updatedAt", "version"]

end Draft

/-- Reads a route whose own bracket is the `depth`-th. -/
def ofTree (depth : Nat) (t : Tree) : Decoded Route := do
  (← Decode.record Draft.names 2 (Draft.field depth) {} t).finish

def toTree (r : Route) : Tree :=
  .ofMembers <|
    [("id", .str r.id), ("uri", .str r.uri), ("predicates", .array (r.predicates.map Rule.toTree)),
      ("filters", .array (r.filters.map Rule.toTree)), ("order", .int r.order.toInt)] ++
    (r.createdAt.map fun i => ("createdAt", Tree.str (Rfc3339.text i))).toList ++
    (r.updatedAt.map fun i => ("updatedAt", Tree.str (Rfc3339.text i))).toList ++
    [("version", .int r.version.toInt)]

/-- The JSON text of a route. -/
def encode (r : Route) : String := r.toTree.compress

/-- Reads a route from the bytes of a text. -/
def decode (b : ByteArray) : Decoded Route := Decode.document (ofTree 1) b

end Route
end EdgeGateway

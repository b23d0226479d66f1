import EdgeGateway.Route.Codec

/-!
# Events about routes

A change of the routes is told to other nodes as an event: an operation with a route or an id. An
event on the wire may carry fields that do not fit its operation; only one that fits is a change.
-/

namespace EdgeGateway

open Json

/-- What was done to the routes. -/
inductive Operation
  | reload
  | add
  | update
  | delete
  deriving DecidableEq, Inhabited

namespace Operation

def name : Operation → String
  | reload => "RELOAD"
  | add => "ADD"
  | update => "UPDATE"
  | delete => "DELETE"

/-- The number of an operation on the wire. -/
def code : Operation → Nat
  | reload => 0
  | add => 1
  | update => 2
  | delete => 3

def ofCode? : Nat → Option Operation
  | 0 => some reload
  | 1 => some add
  | 2 => some update
  | 3 => some delete
  | _ => none

@[simp] theorem ofCode?_code (op : Operation) : ofCode? op.code = some op := by cases op <;> rfl

end Operation

/-- A change of the routes. -/
inductive Change
  | reload
  | add (route : Route)
  | update (route : Route)
  | delete (id : String)
  deriving DecidableEq, Inhabited

/-- An event as it is sent, whether or not its fields fit its operation. -/
structure Event where
  op : Operation
  routeId : Option String
  route : Option Route
  deriving DecidableEq, Inhabited

/-- The fields of an event do not fit its operation. -/
structure Mismatch where
  op : Operation
  hasId : Bool
  hasRoute : Bool
  deriving DecidableEq, Inhabited

def Mismatch.message (m : Mismatch) : String :=
  s!"{m.op.name} event with routeId={m.hasId} routeDefinition={m.hasRoute}"

/-- The event that tells of a change. -/
def Change.toEvent : Change → Event
  | reload => ⟨.reload, none, none⟩
  | add r => ⟨.add, none, some r⟩
  | update r => ⟨.update, none, some r⟩
  | delete id => ⟨.delete, some id, none⟩

/-- Why a text is no event about a change. -/
inductive EventError
  | decode (e : DecodeError)
  | mismatch (m : Mismatch)
  deriving DecidableEq, Inhabited

namespace Event

/-- The change that an event tells of. -/
def change (e : Event) : Except Mismatch Change :=
  match e.op, e.routeId, e.route with
  | .reload, none, none => .ok .reload
  | .add, none, some r => .ok (.add r)
  | .update, none, some r => .ok (.update r)
  | .delete, some id, none => .ok (.delete id)
  | op, id, r => .error ⟨op, id.isSome, r.isSome⟩

@[simp] theorem change_toEvent (c : Change) : c.toEvent.change = .ok c := by cases c <;> rfl

/-! ### On the wire -/

/-- The fields of an event that have been read. -/
structure Draft where
  op : Option Operation := none
  routeId : Option (Option String) := none
  route : Option (Option Route) := none

namespace Draft

def operation (t : Tree) : Decoded Operation := do
  let i ← Decode.integer 0 255 t
  match Operation.ofCode? i.toNat with
  | some op => .ok op
  | none => .error (.unknownOperation i.toNat)

/-- Reads one member of an event. -/
def field (d : Draft) (key : String) (t : Tree) : Decoded Draft :=
  match key with
  | "opType" => return { d with op := ← Decode.once d.op (operation t) }
  | "routeId" =>
    return { d with routeId := ← Decode.once d.routeId (Decode.optional Decode.text t) }
  | "routeDefinition" =>
    return { d with route := ← Decode.once d.route (Decode.optional (Route.ofTree 2) t) }
  | _ => Decode.ignore d t

def finish (d : Draft) : Decoded Event :=
  return ⟨← Decode.require "opType" d.op, d.routeId.getD none, d.route.getD none⟩

def names : List String := ["opType", "routeId", "routeDefinition"]

end Draft

/-- Reads an event from an object, or from an array of its fields in order. -/
def ofTree (t : Tree) : Decoded Event := do
  (← Decode.record Draft.names 1 Draft.field {} t).finish

def toTree (e : Event) : Tree :=
  .ofMembers <|
    [("opType", .int e.op.code)] ++ (e.routeId.map fun id => ("routeId", Tree.str id)).toList ++
      (e.route.map fun r => ("routeDefinition", r.toTree)).toList

/-- The JSON text of an event. -/
def encode (e : Event) : String := e.toTree.compress

/-- Reads an event about a change from the bytes of a text. -/
def decode (b : ByteArray) : Except EventError Event :=
  match Decode.document ofTree b with
  | .error e => .error (.decode e)
  | .ok e =>
    match e.change with
    | .error m => .error (.mismatch m)
    | .ok _ => .ok e

end Event
end EdgeGateway

import EdgeGateway.Json.Tree

/-!
# Reading values out of JSON

A record is written as an object of its fields, in any order and with unknown ones among them, or
as an array of its fields in order. Fields are read in the order of the text, so the first offence
is the one that is reported; a missing field is reported when the record has ended.
-/

namespace EdgeGateway

open Json

/-- Why a JSON text is not what it should be. -/
inductive DecodeError
  | malformed
  | missingField (name : String)
  | unknownOperation (code : Nat)
  | unnamedRule (text : String)
  deriving DecidableEq, Inhabited

namespace DecodeError

def message : DecodeError → String
  | malformed => "malformed value"
  | missingField name => s!"missing field `{name}`"
  | unknownOperation code => s!"unknown opType {code}"
  | unnamedRule text => s!"Invalid route definition: rule '{text}' has no name"

end DecodeError

/-- A decoding that may fail. -/
abbrev Decoded (α : Type) := Except DecodeError α

namespace Decode

def text : Tree → Decoded String
  | .text (some s) => .ok s
  | _ => .error .malformed

/-- An integer between `lo` and `hi`. -/
def integer (lo hi : Int) : Tree → Decoded Int
  | .number n =>
    match n.integer? with
    | some i => if lo ≤ i ∧ i ≤ hi then .ok i else .error .malformed
    | none => .error .malformed
  | _ => .error .malformed

/-- Nothing for `null`. -/
def optional {α : Type} (f : Tree → Decoded α) : Tree → Decoded (Option α)
  | .null => .ok none
  | t => (f t).map some

def list {α : Type} (f : Tree → Decoded α) : Tree → Decoded (List α)
  | .array items => items.mapM f
  | _ => .error .malformed

/-- A field that must not come twice. -/
def once {α : Type} (seen : Option α) (read : Decoded α) : Decoded (Option α) :=
  match seen with
  | some _ => .error .malformed
  | none => read.map some

def require {α : Type} (name : String) : Option α → Decoded α
  | some a => .ok a
  | none => .error (.missingField name)

/-- Reads the members of an object in order, each into what was read before. -/
def members {σ : Type} (field : σ → String → Tree → Decoded σ) :
    σ → List (Option String × Tree) → Decoded σ
  | s, [] => .ok s
  | _, (none, _) :: _ => .error .malformed
  | s, (some k, t) :: ms => do members field (← field s k t) ms

/-- Passes over a member that is not known. -/
def ignore {σ : Type} (s : σ) (t : Tree) : Decoded σ :=
  if t.isComplete then .ok s else .error .malformed

/-- Reads a record whose fields have the given names: an object of them in any order, or an array
of them in order, of which at least `required` must be there. -/
def record {σ : Type} (names : List String) (required : Nat)
    (field : σ → String → Tree → Decoded σ) (start : σ) : Tree → Decoded σ
  | .object ms => members field start ms
  | .array items => do
    let known := items.take names.length
    let s ← members field start ((names.map some).zip known)
    if known.length < required ∨ names.length < items.length then .error .malformed else .ok s
  | _ => .error .malformed

/-- Reads a whole document: nothing may follow its value. -/
def document {α : Type} (f : Tree → Decoded α) (b : ByteArray) : Decoded α := do
  let d := Document.read b
  let a ← f d.value
  if d.trailing then .error .malformed else .ok a

end Decode

/-- The number of brackets that may be open at a time in what is held in memory. -/
def maxNesting : Nat := 127

end EdgeGateway

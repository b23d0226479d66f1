import EdgeGateway.Token.Algorithm
import EdgeGateway.Token.Claims

/-!
# The header of a token

The header names the algorithm. Its other known members are not used, but each must have the shape
it should have; unknown ones are passed over.
-/

namespace EdgeGateway.Token

open Json

namespace Header

/-- The names of one constructor each of an enumeration: as a text, or as an object of one member
whose value is `null`. -/
def name? : Tree → Option String
  | .text s => s
  | .object [(k, .null)] => k
  | _ => none

/-- The value is missing or has the shape that is asked for. -/
def isNullOr (f : Tree → Bool) : Option Tree → Bool
  | none | some .null => true
  | some t => f t

def isText (t : Tree) : Bool := (Claims.text? t).isSome

def isTexts : Tree → Bool
  | .array items => items.all isText
  | _ => false

/-- The algorithms that a key in a header may name. -/
def keyAlgorithms : List String :=
  Algorithm.all.map Algorithm.name ++ ["RSA1_5", "RSA-OAEP", "RSA-OAEP-256"]

/-- The curves that a key in a header may name. -/
def curves : List String := ["P-256", "P-384", "P-521", "Ed25519"]

/-- The members of a key that belong to its kind. -/
def hasKeyMaterial (get : String → Option Tree) : Bool :=
  let text (k : String) := (get k).any isText
  let curve := ((get "crv").bind name?).any curves.contains
  match (get "kty").bind name? with
  | some "EC" => curve && text "x" && text "y"
  | some "RSA" => text "n" && text "e"
  | some "oct" => text "k"
  | some "OKP" => curve && text "x"
  | _ => false

/-- A public key inside a header. -/
def isKey (t : Tree) : Bool :=
  match Claims.members? t with
  | none => false
  | some ms =>
    let get (k : String) := (Claims.once? ms k).join
    let known := ["use", "key_ops", "alg", "kid", "x5u", "x5c", "x5t", "x5t#S256", "kty", "crv",
      "x", "y", "n", "e", "k"]
    t.isPlain (maxNesting - 1) && known.all (fun k => (Claims.once? ms k).isSome) &&
      ["use", "kid", "x5u", "x5t", "x5t#S256"].all (fun k => isNullOr isText (get k)) &&
      ["key_ops", "x5c"].all (fun k => isNullOr isTexts (get k)) &&
      isNullOr (fun t => (name? t).any keyAlgorithms.contains) (get "alg") &&
      hasKeyMaterial get

/-- Reads one member of a header; what is kept is the keys that were seen and the algorithm. -/
def field (seen : List String × Option Algorithm) (key : String) (t : Tree) :
    Decoded (List String × Option Algorithm) :=
  let keep (b : Bool) : Decoded (List String × Option Algorithm) :=
    if b && !seen.1.contains key then .ok (key :: seen.1, seen.2) else .error .malformed
  match key with
  | "alg" => do
    let (keys, _) ← keep true
    match (name? t).bind Algorithm.ofName? with
    | some a => .ok (keys, some a)
    | none => .error .malformed
  | "typ" | "cty" | "jku" | "kid" | "x5u" | "x5t" | "x5t#S256" => keep (isNullOr isText (some t))
  | "x5c" => keep (isNullOr isTexts (some t))
  | "jwk" => keep (isNullOr isKey (some t))
  | _ => Decode.ignore seen t

/-- The members of a header in order, when it is written as an array. -/
def names : List String :=
  ["typ", "alg", "cty", "jku", "jwk", "kid", "x5u", "x5c", "x5t", "x5t#S256"]

/-- The algorithm that a header names. -/
def algorithm? (bs : List UInt8) : Option Algorithm :=
  if (String.fromUTF8? ⟨bs.toArray⟩).isNone then none
  else
    match Decode.document (Decode.record names names.length field ([], none)) ⟨bs.toArray⟩ with
    | .ok (_, a) => a
    | .error _ => none

end Header
end EdgeGateway.Token

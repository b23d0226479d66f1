import EdgeGateway.Json.Decode
import EdgeGateway.Json.Tree

/-!
# What a token claims

The claims of a token are an object with a subject and a time of expiry. An issuer or an audience
counts if it is a text or a list of texts; one of any other shape is as good as none. A claim that
counts must not come twice.
-/

namespace EdgeGateway.Token

open Json

/-- The claims of a token that are looked at. -/
structure Claims where
  subject : String
  expiry : UInt64
  issuers : Option (List String)
  hasAudience : Bool
  deriving DecidableEq, Inhabited

namespace Claims

/-- The members of an object; every key must be a text. -/
def members? : Tree → Option (List (String × Tree))
  | .object ms => ms.mapM fun m => m.1.map fun k => (k, m.2)
  | _ => none

/-- The value of a member that comes once at most. -/
def once? (ms : List (String × Tree)) (key : String) : Option (Option Tree) :=
  match ms.filter fun m => m.1 == key with
  | [] => some none
  | [m] => some (some m.2)
  | _ => none

def text? : Tree → Option String
  | .text s => s
  | _ => none

/-- A text, or a list of texts. -/
def names? : Tree → Option (List String)
  | .text (some s) => some [s]
  | .array items => items.mapM text?
  | _ => none

/-- A value inside the claims can be held in memory; a number out of range is passed over. -/
def isHeld : Tree → Bool
  | .number _ => true
  | t => t.isPlain (maxNesting - 1)

/-- A value that a number was expected in place of: only an empty list or object can be passed. -/
def isPassable : Tree → Bool
  | .array items => items.isEmpty
  | .object ms => ms.isEmpty
  | t => isHeld t

/-- Reads the claims from the bytes of a text. -/
def read? (bs : List UInt8) : Option Claims := do
  let d := Document.read ⟨bs.toArray⟩
  if d.trailing || !d.value.isComplete then none
  else
    let ms ← members? d.value
    let subject ← (← once? ms "sub").bind text?
    let expiry ← match ← once? ms "exp" with
      | some (.number n) => n.nearest?
      | _ => none
    let notBefore ← once? ms "nbf"
    let issuer ← once? ms "iss"
    let audience ← once? ms "aud"
    if notBefore.all isPassable && issuer.all isHeld && audience.all isHeld then
      some ⟨subject, expiry, issuer.bind names?, (audience.bind names?).isSome⟩
    else none

end Claims
end EdgeGateway.Token

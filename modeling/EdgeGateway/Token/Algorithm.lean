import EdgeGateway.Crypto.Sha2

/-!
# Signature algorithms

The algorithms that a token may name. Those with a shared secret are known but never used: the
gateway holds a public key only.
-/

namespace EdgeGateway.Token

open Crypto

/-- The kind of key that an algorithm takes. -/
inductive KeyKind
  | rsa
  | ec
  | ed
  deriving DecidableEq, Inhabited

/-- An algorithm: with a shared secret, RSA with the fixed or the salted encoding, or on a curve. -/
inductive Algorithm
  | hs (h : Hash)
  | rs (h : Hash)
  | ps (h : Hash)
  | es256
  | es384
  | edDSA
  deriving DecidableEq, Inhabited

namespace Algorithm

/-- The digest length in bits, as it stands in names. -/
def bitsText : Hash → String
  | .sha256 => "256"
  | .sha384 => "384"
  | .sha512 => "512"

def name : Algorithm → String
  | hs h => "HS" ++ bitsText h
  | rs h => "RS" ++ bitsText h
  | ps h => "PS" ++ bitsText h
  | es256 => "ES256"
  | es384 => "ES384"
  | edDSA => "EdDSA"

def all : List Algorithm :=
  [Hash.sha256, .sha384, .sha512].flatMap (fun h => [hs h, rs h, ps h]) ++ [es256, es384, edDSA]

/-- The algorithm of a name. -/
def ofName? (s : String) : Option Algorithm := all.find? fun a => a.name == s

/-- The kind of key of an algorithm without a shared secret. -/
def keyKind? : Algorithm → Option KeyKind
  | hs _ => none
  | rs _ | ps _ => some .rsa
  | es256 | es384 => some .ec
  | edDSA => some .ed

end Algorithm

/-- Why an algorithm cannot be used. -/
inductive AlgorithmError
  | unknown (name : String)
  | symmetric (name : String)
  deriving DecidableEq, Inhabited

def AlgorithmError.message : AlgorithmError → String
  | unknown name => s!"Unknown JWT algorithm: {name}"
  | symmetric name =>
    s!"JWT algorithm {name} is symmetric; a public-key algorithm is required"

/-- The algorithm of a name, and the kind of its key. -/
def Algorithm.parse (name : String) : Except AlgorithmError (Algorithm × KeyKind) :=
  match ofName? name with
  | none => .error (.unknown name)
  | some a =>
    match a.keyKind? with
    | none => .error (.symmetric name)
    | some k => .ok (a, k)

end EdgeGateway.Token

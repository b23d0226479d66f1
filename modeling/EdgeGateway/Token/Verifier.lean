import EdgeGateway.Text.Quoted
import EdgeGateway.Token.Header
import EdgeGateway.Token.PublicKey
import EdgeGateway.Token.Verdict

/-!
# Verifying tokens

A token is three texts with points between them: a header, the claims and a signature on both. The
signature is checked first, then the claims are read, then the time of expiry, the issuer and the
audience are looked at. A token with an audience is for somebody else.
-/

namespace EdgeGateway.Token

/-- Why there is no verifier. -/
inductive VerifierError
  | algorithm (e : AlgorithmError)
  | badKey (kind : KeyKind)
  | unreadable (path : String)
  deriving DecidableEq, Inhabited

def VerifierError.message : VerifierError → String
  | algorithm e => e.message
  | badKey .rsa => "Failed to parse RSA public key PEM"
  | badKey .ec => "Failed to parse EC public key PEM"
  | badKey .ed => "Failed to parse Ed25519 public key PEM"
  | unreadable path => s!"Failed to read token public key {Text.quoted path}"

/-- The rules for tokens: the algorithm, the key, the issuer if one is asked for, and how many
seconds a token is good for after its expiry. -/
structure Verifier where
  algorithm : Algorithm
  key : List UInt8
  issuer : Option String
  leeway : UInt64
  deriving DecidableEq, Inhabited

namespace Verifier

/-- A verifier for an algorithm with the key of a file. -/
def ofKeyFile (algorithm : String) (file : List UInt8) (issuer : Option String) (leeway : UInt64) :
    Except VerifierError Verifier :=
  match Algorithm.parse algorithm with
  | .error e => .error (.algorithm e)
  | .ok (a, kind) =>
    match keyOfFile? kind file with
    | none => .error (.badKey kind)
    | some key => .ok ⟨a, key, issuer, leeway⟩

/-- The last part of a text with points, and what stands before its point. -/
def splitLast? (cs : List Char) : Option (List Char × List Char) :=
  let last := cs.reverse.takeWhile (· != '.')
  match cs.reverse.drop last.length with
  | [] => none
  | _ :: front => some (front.reverse, last.reverse)

/-- The text of the claims of a token whose signature is good. -/
def signedClaims? (v : Verifier) (token : List Char) : Option (List Char) := do
  let (message, signature) ← splitLast? token
  let (header, claims) ← splitLast? message
  let algorithm ← Header.algorithm? (← Text.Base64.decodeUrl? header)
  if algorithm = v.algorithm then
    let signature ← Text.Base64.decodeUrl? signature
    if checkSignature v.algorithm v.key (String.ofList message).toUTF8.toList signature then
      some claims
    else none
  else none

/-- The claims of a token whose signature is good. -/
def claims? (v : Verifier) (token : List Char) : Option Claims := do
  Claims.read? (← Text.Base64.decodeUrl? (← v.signedClaims? token))

/-- Judges claims at a time in seconds. -/
def judge (v : Verifier) (now : UInt64) (c : Claims) : Verdict :=
  if c.expiry < now - v.leeway then .expired
  else if (match v.issuer, c.issuers with
    | some i, some is => !is.contains i
    | _, _ => false) then .invalid
  else if c.hasAudience then .invalid
  else .valid c.subject

/-- Verifies a token at a time in seconds. -/
def verify (v : Verifier) (now : UInt64) (token : List Char) : Verdict :=
  match v.claims? token with
  | some c => v.judge now c
  | none => .invalid

end Verifier
end EdgeGateway.Token

import EdgeGateway.Crypto.Ecdsa
import EdgeGateway.Crypto.Ed25519
import EdgeGateway.Crypto.Rsa
import EdgeGateway.Token.Algorithm
import EdgeGateway.Token.Armor
import EdgeGateway.Token.Der

/-!
# Public keys

A key file is armored tagged data. Its first identifier of a kind of key tells what it is for, and
its first string of bits or bytes is the key; a file with the label of RSA holds the key itself.
Whether the key is a good one shows only when a signature is checked.
-/

namespace EdgeGateway.Token

open Crypto

/-- The kind of key that an identifier tells. -/
def KeyKind.ofIdentifier? (arcs : List Nat) : Option KeyKind :=
  if arcs = [1, 2, 840, 10045, 2, 1] then some .ec
  else if arcs = [1, 2, 840, 113549, 1, 1, 1] then some .rsa
  else if arcs = [1, 3, 101, 112] then some .ed
  else none

/-- The bytes of a key of the given kind in a key file. A private key has no use here, but one of
the RSA kind is let through; it verifies nothing. -/
def keyOfFile? (kind : KeyKind) (file : List UInt8) : Option (List UInt8) := do
  let armor ← Armor.parse? file
  let blocks ← Block.parse? armor.contents
  if armor.label == "RSA PUBLIC KEY" || armor.label == "RSA PRIVATE KEY" then
    if kind = .rsa then some armor.contents else none
  else if ["PUBLIC KEY", "PRIVATE KEY", "CERTIFICATE"].contains armor.label then
    let found ← Block.firstIdentifierIn? KeyKind.ofIdentifier? blocks
    if found ≠ kind || (armor.label == "PRIVATE KEY" && kind ≠ .rsa) then none
    else Block.firstStringIn? blocks
  else none

/-- The contents of a block at the front, with a tag of one byte and the shortest form of its length. -/
def strictBlock? (tag : UInt8) (bs : List UInt8) : Option (List UInt8 × List UInt8) :=
  match bs with
  | t :: bs =>
    match Block.length? bs with
    | some (n, rest) =>
      let form := bs.length - rest.length
      let shortest := if n < 128 then 1 else if n < 256 then 2 else 3
      if t = tag ∧ form = shortest ∧ n < 65536 ∧ n ≤ rest.length then
        some (rest.take n, rest.drop n)
      else none
    | none => none
  | [] => none

/-- A positive integer in the shortest form. -/
def strictInteger? (bs : List UInt8) : Option (Nat × List UInt8) := do
  let (body, rest) ← strictBlock? 2 bs
  match body with
  | 0 :: b :: body => if b < 128 then none else some (ofBytes (b :: body), rest)
  | b :: body => if b = 0 ∨ 128 ≤ b then none else some (ofBytes (b :: body), rest)
  | [] => none

/-- An RSA key: a sequence of its modulus and its exponent. -/
def rsaKey? (bs : List UInt8) : Option Rsa.PublicKey := do
  let (body, rest) ← strictBlock? 0x30 bs
  let (n, body) ← strictInteger? body
  let (e, body) ← strictInteger? body
  if rest.isEmpty && body.isEmpty then some ⟨n, e⟩ else none

/-- Checks a signature on a message with the bytes of a key. -/
def checkSignature (a : Algorithm) (key message signature : List UInt8) : Bool :=
  match a with
  | .hs _ => false
  | .rs h => (rsaKey? key).any fun k => Rsa.verifyFixed h k message signature
  | .ps h => (rsaKey? key).any fun k => Rsa.verifySalted h k message signature
  | .es256 => Ecdsa.verify Ecdsa.p256 .sha256 key message signature
  | .es384 => Ecdsa.verify Ecdsa.p384 .sha384 key message signature
  | .edDSA => Ed25519.verify key message signature

end EdgeGateway.Token

import EdgeGateway.Crypto.Sha2

/-!
# RSA signatures

A signature is raised to the public exponent; what comes out must be the encoding of the message's
digest. There are two encodings: a fixed one, and one with a random salt that is as long as the
digest.
-/

namespace EdgeGateway.Crypto.Rsa

/-- A public key. -/
structure PublicKey where
  modulus : Nat
  exponent : Nat
  deriving DecidableEq, Inhabited

/-- The number of bits of a number. -/
def bitLength (n : Nat) : Nat := if n = 0 then 0 else n.log2 + 1

/-- The number of bytes that hold so many bits. -/
def byteLength (bits : Nat) : Nat := (bits + 7) / 8

namespace PublicKey

/-- The number of bytes of a signature. -/
def size (k : PublicKey) : Nat := byteLength (bitLength k.modulus)

/-- The key may be used: from 2048 to 8192 bits, in whole bytes, and an odd exponent of at most 33
bits that is not one. -/
def isAcceptable (k : PublicKey) : Bool :=
  256 ≤ k.size && bitLength k.modulus ≤ 8192 && k.modulus % 2 == 1 &&
    3 ≤ k.exponent && k.exponent < 1 <<< 33 && k.exponent % 2 == 1

/-- The number that a signature was made from. -/
def recover? (k : PublicKey) (signature : List UInt8) : Option Nat :=
  let s := ofBytes signature
  if signature.length = k.size && s != 0 && s < k.modulus then
    some (powMod k.modulus s k.exponent)
  else none

end PublicKey

/-- What stands before a digest to tell its function. -/
def digestInfo : Hash → List UInt8
  | .sha256 => [0x30, 0x31, 0x30, 0x0d, 0x06, 0x09, 0x60, 0x86, 0x48, 0x01, 0x65, 0x03, 0x04, 0x02,
      0x01, 0x05, 0x00, 0x04, 0x20]
  | .sha384 => [0x30, 0x41, 0x30, 0x0d, 0x06, 0x09, 0x60, 0x86, 0x48, 0x01, 0x65, 0x03, 0x04, 0x02,
      0x02, 0x05, 0x00, 0x04, 0x30]
  | .sha512 => [0x30, 0x51, 0x30, 0x0d, 0x06, 0x09, 0x60, 0x86, 0x48, 0x01, 0x65, 0x03, 0x04, 0x02,
      0x03, 0x05, 0x00, 0x04, 0x40]

/-- The fixed encoding of a message in `size` bytes. -/
def fixedEncoding (h : Hash) (size : Nat) (message : List UInt8) : List UInt8 :=
  let t := digestInfo h ++ h.digest message
  0 :: 1 :: (List.replicate (size - t.length - 3) 0xFF ++ 0 :: t)

/-- Checks a signature with the fixed encoding. -/
def verifyFixed (h : Hash) (k : PublicKey) (message signature : List UInt8) : Bool :=
  match k.recover? signature with
  | some m => k.isAcceptable && toBytes k.size m == fixedEncoding h k.size message
  | none => false

/-- A mask of `n` bytes from a seed. -/
def mask (h : Hash) (seed : List UInt8) (n : Nat) : List UInt8 :=
  ((List.range (n / h.length + 1)).flatMap fun i => h.digest (seed ++ toBytes 4 i)).take n

/-- Checks the salted encoding of a message in `bits` bits. -/
def isSaltedEncoding (h : Hash) (bits : Nat) (message encoded : List UInt8) : Bool :=
  let dataLength := encoded.length - h.length - 1
  let masked := encoded.take dataLength
  let check := (encoded.drop dataLength).take h.length
  let unused := 8 * encoded.length - bits
  let plain := masked.zipWith (· ^^^ ·) (mask h check dataLength)
  let data := toBytes dataLength (ofBytes plain % (1 <<< (8 * dataLength - unused)))
  let salt := data.drop (dataLength - h.length)
  2 * h.length + 2 ≤ encoded.length && encoded.getLast? == some 0xBC &&
    ofBytes masked < 1 <<< (8 * dataLength - unused) &&
    data.take (dataLength - h.length) == List.replicate (dataLength - h.length - 1) 0 ++ [1] &&
    h.digest (List.replicate 8 0 ++ h.digest message ++ salt) == check

/-- Checks a signature with the salted encoding. -/
def verifySalted (h : Hash) (k : PublicKey) (message signature : List UInt8) : Bool :=
  match k.recover? signature with
  | some m =>
    let bits := bitLength k.modulus - 1
    k.isAcceptable && m < 1 <<< (8 * byteLength bits) &&
      isSaltedEncoding h bits message (toBytes (byteLength bits) m)
  | none => false

end EdgeGateway.Crypto.Rsa

import EdgeGateway.Crypto.Modular

/-!
# The SHA-2 hash functions

SHA-256 works on words of 32 bits, SHA-384 and SHA-512 on words of 64. Their constants are the
first bits after the point of the cube roots of the first primes, and of the square roots for the
initial state.
-/

namespace EdgeGateway.Crypto

/-- The largest number below `2 ^ bits` whose `k`-th power is at most `n`. -/
def floorRoot (k n : Nat) : Nat → Nat → Nat
  | 0, r => r
  | bits + 1, r =>
    let larger := r + (1 <<< bits)
    floorRoot k n bits (if Nat.pow larger k ≤ n then larger else r)

/-- The first `w` bits after the point of the `k`-th root of `n`. -/
def rootFraction (k w n : Nat) : BitVec w := .ofNat w (floorRoot k (n <<< (k * w)) (w + 16) 0)

def isPrime (n : Nat) : Bool := 2 ≤ n && (List.range n).all fun d => d < 2 || n % d != 0

/-- The first 80 primes. -/
def primes : List Nat := (List.range 410).filter isPrime

/-- What tells the functions of the family apart: the rotations and shifts, the constants, the
initial state, and the length of the digest in bytes. -/
structure Sha2 (w : Nat) where
  upper0 : Nat × Nat × Nat
  upper1 : Nat × Nat × Nat
  lower0 : Nat × Nat × Nat
  lower1 : Nat × Nat × Nat
  constants : List (BitVec w)
  initial : List (BitVec w)
  length : Nat

namespace Sha2

variable {w : Nat}

/-- The sum of three rotations. -/
def mix (r : Nat × Nat × Nat) (x : BitVec w) : BitVec w :=
  x.rotateRight r.1 ^^^ x.rotateRight r.2.1 ^^^ x.rotateRight r.2.2

/-- The sum of two rotations and a shift. -/
def mixShift (r : Nat × Nat × Nat) (x : BitVec w) : BitVec w :=
  x.rotateRight r.1 ^^^ x.rotateRight r.2.1 ^^^ (x >>> r.2.2)

/-- The words of a block for the rounds to come, from its sixteen words. -/
def schedule (h : Sha2 w) : Nat → List (BitVec w) → List (BitVec w)
  | n + 1, [a, b, c, d, e, f, g, i, j, k, l, m, o, p, q, r] =>
    let next := mixShift h.lower1 q + k + mixShift h.lower0 b + a
    a :: schedule h n [b, c, d, e, f, g, i, j, k, l, m, o, p, q, r, next]
  | _, _ => []

/-- One round. -/
def round (h : Sha2 w) (s : List (BitVec w)) (word : BitVec w × BitVec w) : List (BitVec w) :=
  match s with
  | [a, b, c, d, e, f, g, i] =>
    let t := i + mix h.upper1 e + ((e &&& f) ^^^ (~~~e &&& g)) + word.1 + word.2
    let u := mix h.upper0 a + ((a &&& b) ^^^ (a &&& c) ^^^ (b &&& c))
    [t + u, a, b, c, d + t, e, f, g]
  | s => s

/-- Works the sixteen words of a block into the state. -/
def compress (h : Sha2 w) (s words : List (BitVec w)) : List (BitVec w) :=
  let rounds := h.constants.zip (schedule h h.constants.length words)
  s.zipWith (· + ·) (rounds.foldl h.round s)

/-- The bytes, cut into pieces of `n`. -/
def pieces (n : Nat) (bs : List UInt8) : List (List UInt8) :=
  (List.range (bs.length / n)).map fun i => (bs.drop (i * n)).take n

/-- The message with a one bit, zeros and its length behind it, in full blocks. -/
def padded (w : Nat) (m : List UInt8) : List UInt8 :=
  let block := 2 * w
  let zeros := (block - (m.length + 1 + w / 4) % block) % block
  m ++ 0x80 :: (List.replicate zeros 0 ++ toBytes (w / 4) (8 * m.length))

/-- The digest of a message. -/
def digest (h : Sha2 w) (m : List UInt8) : List UInt8 :=
  let blocks := (pieces (2 * w) (padded w m)).map fun b =>
    (pieces (w / 8) b).map fun x => BitVec.ofNat w (ofBytes x)
  ((blocks.foldl h.compress h.initial).flatMap fun x => toBytes (w / 8) x.toNat).take h.length

def sha256 : Sha2 32 where
  upper0 := (2, 13, 22)
  upper1 := (6, 11, 25)
  lower0 := (7, 18, 3)
  lower1 := (17, 19, 10)
  constants := (primes.take 64).map (rootFraction 3 32)
  initial := (primes.take 8).map (rootFraction 2 32)
  length := 32

def sha512 : Sha2 64 where
  upper0 := (28, 34, 39)
  upper1 := (14, 18, 41)
  lower0 := (1, 8, 7)
  lower1 := (19, 61, 6)
  constants := primes.map (rootFraction 3 64)
  initial := (primes.take 8).map (rootFraction 2 64)
  length := 64

def sha384 : Sha2 64 :=
  { sha512 with initial := ((primes.drop 8).take 8).map (rootFraction 2 64), length := 48 }

end Sha2

/-- A hash function of the family. -/
inductive Hash
  | sha256
  | sha384
  | sha512
  deriving DecidableEq, Inhabited

namespace Hash

/-- The length of a digest in bytes. -/
def length : Hash → Nat
  | sha256 => 32
  | sha384 => 48
  | sha512 => 64

def digest : Hash → List UInt8 → List UInt8
  | sha256 => Sha2.sha256.digest
  | sha384 => Sha2.sha384.digest
  | sha512 => Sha2.sha512.digest

end Hash
end EdgeGateway.Crypto

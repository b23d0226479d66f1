/-!
# Arithmetic modulo a number
-/

namespace EdgeGateway.Crypto

/-- The remainder of `b ^ e`, by repeated squaring. -/
def powMod (m b e : Nat) : Nat :=
  if h : e = 0 then 1 % m
  else
    let r := powMod m (b * b % m) (e / 2)
    if e % 2 = 1 then b * r % m else r
termination_by e
decreasing_by omega

/-- The inverse of `a` modulo a prime. -/
def inverse (p a : Nat) : Nat := powMod p a (p - 2)

/-- The difference modulo `m` of two numbers below it. -/
def subMod (m a b : Nat) : Nat := (a + m - b) % m

/-- The number that bytes write, the highest first. -/
def ofBytes (bs : List UInt8) : Nat := bs.foldl (fun n b => n * 256 + b.toNat) 0

/-- The lowest `len` bytes of a number, the highest first. -/
def toBytes : Nat → Nat → List UInt8
  | 0, _ => []
  | len + 1, n => toBytes len (n / 256) ++ [n.toUInt8]

end EdgeGateway.Crypto

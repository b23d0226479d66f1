import EdgeGateway.Crypto.Sha2

/-!
# Elliptic curve signatures

A curve `y² = x³ - 3x + b` over a prime field with a point that generates a group of prime order.
A signature is two numbers `r` and `s`; the message's digest, the key and `s` give a point whose
first coordinate must be `r`.
-/

namespace EdgeGateway.Crypto.Ecdsa

/-- A curve: its field, its coefficient, its generator, the order of the group, and the number of
bytes of a coordinate. -/
structure Curve where
  p : Nat
  b : Nat
  gx : Nat
  gy : Nat
  order : Nat
  size : Nat

/-- The curve of 256 bits. -/
def p256 : Curve where
  p := 0xffffffff00000001000000000000000000000000ffffffffffffffffffffffff
  b := 0x5ac635d8aa3a93e7b3ebbd55769886bc651d06b0cc53b0f63bce3c3e27d2604b
  gx := 0x6b17d1f2e12c4247f8bce6e563a440f277037d812deb33a0f4a13945d898c296
  gy := 0x4fe342e2fe1a7f9b8ee7eb4a7c0f9e162bce33576b315ececbb6406837bf51f5
  order := 0xffffffff00000000ffffffffffffffffbce6faada7179e84f3b9cac2fc632551
  size := 32

/-- The curve of 384 bits. -/
def p384 : Curve where
  p := 0xfffffffffffffffffffffffffffffffffffffffffffffffffffffffffffffffeffffffff0000000000000000ffffffff
  b := 0xb3312fa7e23ee7e4988e056be3f82d19181d9c6efe8141120314088f5013875ac656398d8a2ed19d2a85c8edd3ec2aef
  gx := 0xaa87ca22be8b05378eb1c71ef320ad746e1d3b628ba79b9859f741e082542a385502f25dbf55296c3a545e3872760ab7
  gy := 0x3617de4a96262c6f5d9e98bf9292dc29f8f41dbd289a147ce9da3113b5f0b8c00a60b1ce1d7e819d7a431d7c90ea0e5f
  order := 0xffffffffffffffffffffffffffffffffffffffffffffffffc7634d81f4372ddf581a0db248b0a77aecec196accc52973
  size := 48

/-- A point of a curve; `none` is the one at infinity. -/
abbrev Point := Option (Nat × Nat)

namespace Curve

/-- The coordinates solve the equation of the curve. -/
def contains (c : Curve) (x y : Nat) : Bool :=
  x < c.p && y < c.p && (y * y) % c.p == (x * x * x + (c.p - 3) * x + c.b) % c.p

/-- The opposite of the third point of a line of a given slope. -/
def third (c : Curve) (slope x₁ y₁ x₂ : Nat) : Point :=
  let x := subMod c.p (subMod c.p (slope * slope % c.p) x₁) x₂
  some (x, subMod c.p (slope * subMod c.p x₁ x % c.p) y₁)

/-- The sum of two points. -/
def add (c : Curve) : Point → Point → Point
  | none, q => q
  | q, none => q
  | some (x₁, y₁), some (x₂, y₂) =>
    if x₁ = x₂ then
      if (y₁ + y₂) % c.p = 0 then none
      else c.third ((3 * x₁ * x₁ + (c.p - 3)) * inverse c.p (2 * y₁ % c.p) % c.p) x₁ y₁ x₂
    else c.third (subMod c.p y₂ y₁ * inverse c.p (subMod c.p x₂ x₁) % c.p) x₁ y₁ x₂

/-- The sum `u * g + v * q`, by the binary digits of `u` and `v` from the highest on. -/
def combine (c : Curve) (g q : Point) (u v : Nat) : Point :=
  let both := c.add g q
  (List.range (8 * c.size)).reverse.foldl (fun r i =>
    let r := c.add r r
    match u.testBit i, v.testBit i with
    | true, true => c.add r both
    | true, false => c.add r g
    | false, true => c.add r q
    | false, false => r) none

/-- Reads a point that is written with both coordinates. -/
def point? (c : Curve) : List UInt8 → Option Point
  | 4 :: bs =>
    let x := ofBytes (bs.take c.size)
    let y := ofBytes (bs.drop c.size)
    if bs.length = 2 * c.size && c.contains x y then some (some (x, y)) else none
  | _ => none

end Curve

/-- Checks a signature; the digest is as long as the numbers of the curve. -/
def verify (c : Curve) (h : Hash) (key message signature : List UInt8) : Bool :=
  let r := ofBytes (signature.take c.size)
  let s := ofBytes (signature.drop c.size)
  match c.point? key with
  | none => false
  | some q =>
    if signature.length = 2 * c.size && 0 < r && r < c.order && 0 < s && s < c.order then
      let e := ofBytes (h.digest message) % c.order
      let w := inverse c.order s
      match c.combine (some (c.gx, c.gy)) q (e * w % c.order) (r * w % c.order) with
      | some (x, _) => x % c.order == r
      | none => false
    else false

end EdgeGateway.Crypto.Ecdsa

import EdgeGateway.Crypto.Sha2

/-!
# Ed25519 signatures

The curve `-x² + y² = 1 + d x² y²` over the field of `2^255 - 19` elements. A point is written as
its second coordinate, lowest byte first, with the parity of the first in the highest bit.
-/

namespace EdgeGateway.Crypto.Ed25519

/-- The size of the field. -/
def p : Nat := (1 <<< 255) - 19

/-- The order of the group that the base generates. -/
def order : Nat := (1 <<< 252) + 27742317777372353535851937790883648493

/-- The coefficient of the curve. -/
def d : Nat := (p - 121665) * inverse p 121666 % p

/-- A point of the curve. -/
structure Point where
  x : Nat
  y : Nat
  deriving DecidableEq, Inhabited

/-- The sum of two points; the law has no exceptions. -/
def Point.add (a b : Point) : Point :=
  let t := d * (a.x * b.x % p) % p * (a.y * b.y % p) % p
  ⟨(a.x * b.y + b.x * a.y) % p * inverse p ((1 + t) % p) % p,
    (a.y * b.y + a.x * b.x) % p * inverse p (subMod p 1 t) % p⟩

/-- The neutral point. -/
def Point.zero : Point := ⟨0, 1⟩

/-- A multiple of a point, by the binary digits from the highest on. -/
def Point.times (n : Nat) (a : Point) : Point :=
  (List.range 256).reverse.foldl (fun r i =>
    let r := r.add r
    if n.testBit i then r.add a else r) .zero

/-- The bytes of a point. -/
def Point.encode (a : Point) : List UInt8 :=
  (toBytes 32 (a.y + ((a.x % 2) <<< 255))).reverse

/-- A square root of `u / v`, if there is one. -/
def sqrtRatio? (u v : Nat) : Option Nat :=
  let w := u * inverse p v % p
  let r := powMod p w ((p + 3) / 8)
  if r * r % p = w then some r
  else
    let r := r * powMod p 2 ((p - 1) / 4) % p
    if r * r % p = w then some r else none

/-- Reads a point. -/
def Point.decode? (bs : List UInt8) : Option Point := do
  let n := ofBytes bs.reverse
  let y := n % (1 <<< 255) % p
  let x ← sqrtRatio? (subMod p (y * y % p) 1) ((d * (y * y) + 1) % p)
  if bs.length = 32 then some ⟨if x % 2 = n >>> 255 then x else (p - x) % p, y⟩ else none

/-- The base point: its second coordinate is 4/5 and its first is even. -/
def base : Point :=
  ((Point.decode? (toBytes 32 (4 * inverse p 5 % p)).reverse).getD .zero)

/-- Checks a signature. -/
def verify (key message signature : List UInt8) : Bool :=
  let r := signature.take 32
  let s := ofBytes (signature.drop 32).reverse
  match Point.decode? key with
  | none => false
  | some a =>
    let h := ofBytes (Hash.sha512.digest (r ++ key ++ message)).reverse % order
    signature.length = 64 && s < order &&
      ((base.times s).add (Point.times h ⟨(p - a.x) % p, a.y⟩)).encode == r

end EdgeGateway.Crypto.Ed25519

import EdgeGateway.Text.Digit

/-!
# Numbers as they are written

A JSON number keeps the digits of its text: whether it is an integer is a question about how it is
written (`1.0` and `-0` are none), and so is whether it stays within the range of a double when it
is read with at most 64 bits of significand.
-/

namespace EdgeGateway.Json

open EdgeGateway.Text (digit? ofDigits)

/-- A number by its digits; `fraction` is empty when there is no point. -/
structure Number where
  negative : Bool
  whole : List Nat
  fraction : List Nat
  exponent : Option Int
  deriving DecidableEq, Inhabited

namespace Number

/-- The integer that is written, if one is; a zero with a sign is none. -/
def integer? (n : Number) : Option Int :=
  if n.fraction.isEmpty && n.exponent.isNone then
    let v := ofDigits 10 n.whole
    if n.negative then if v = 0 then none else some (-v) else some v
  else none

/-- The number that an integer is written as. -/
def ofInt (i : Int) : Number :=
  ⟨decide (i < 0), (Nat.toDigits 10 i.natAbs).filterMap (digit? 10), [], none⟩

/-! ### The range of a double -/

/-- A natural number cut to 53 significant bits, to the nearest, a tie to the even one. -/
def cut53 (n : Nat) : Nat :=
  if n < 1 <<< 53 then n
  else
    let unit := 1 <<< (n.log2 - 52)
    let q := n / unit
    let r := n % unit
    if 2 * r > unit || (2 * r == unit && q % 2 == 1) then (q + 1) * unit else q * unit

/-- Half a unit above the largest double. -/
def doubleLimit : Nat := (1 <<< 1024) - (1 <<< 970)

/-- Reads digits into a significand of 64 bits; the digits that no longer fit are counted. -/
def fill : Nat → List Nat → Nat × Nat
  | s, [] => (s, 0)
  | s, d :: ds => if s * 10 + d < UInt64.size then fill (s * 10 + d) ds else (s, ds.length + 1)

/-- The significand and the power of ten that are left when digits beyond 64 bits are dropped. -/
def scaled (n : Number) : Nat × Int :=
  let (s, dropped) := fill 0 n.whole
  let (s', unread) := fill s n.fraction
  (s', (dropped : Int) - (n.fraction.length - unread : Nat) + n.exponent.getD 0)

/-- No double holds `s * 10 ^ e`: half a unit above the largest double is already too much. -/
def exceedsDouble (s : Nat) (e : Int) : Bool :=
  s != 0 && (e > 308 || (0 ≤ e && doubleLimit ≤ cut53 s * cut53 (Nat.pow 10 e.toNat)))

/-- The number has a value as a double. -/
def isFinite (n : Number) : Bool :=
  let (s, e) := n.scaled
  !exceedsDouble s e

/-! ### The nearest integer -/

/-- The natural number nearest to a number that is not negative and below `2 ^ 64`, a half going up;
the number is first cut to the significand of a double. -/
def nearest? (n : Number) : Option UInt64 :=
  match n.integer? with
  | some i => if 0 ≤ i ∧ i < UInt64.size then some i.toNat.toUInt64 else none
  | none =>
    let (s, e) := n.scaled
    if s = 0 then some 0
    else if n.negative || exceedsDouble s e then none
    else
      let v := if 0 ≤ e then cut53 s * Nat.pow 10 e.toNat
        else if e < -400 then 0
        else
          let unit := Nat.pow 10 (-e).toNat
          (2 * cut53 s + unit) / (2 * unit)
      if v < UInt64.size then some v.toUInt64 else none

end Number
end EdgeGateway.Json

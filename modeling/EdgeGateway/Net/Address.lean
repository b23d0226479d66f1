import EdgeGateway.Text.Digit

/-!
# Internet addresses

An address of version 4 is four bytes, one of version 6 is eight groups of 16 bits. The text of an
address is canonical: equal addresses have equal texts. In version 6 the longest run of two or more
zero groups (the first of the longest) is written as `::`, and an address that embeds one of version
4 is written with its dotted text.
-/

namespace EdgeGateway

/-- An address of version 4, or one of version 6 by its eight groups. -/
inductive Address
  | v4 (a b c d : UInt8)
  | v6 (groups : List UInt16) (length_eq : groups.length = 8)
  deriving DecidableEq

namespace Address

open Text

instance : Inhabited Address := ⟨.v4 0 0 0 0⟩

/-! ### Text -/

/-- The decimal text of a number. -/
def decimal (n : Nat) : List Char := Nat.toDigits 10 n

/-- The lower-case hexadecimal text of a number. -/
def hexadecimal (n : Nat) : List Char := Nat.toDigits 16 n

def v4Text (a b c d : UInt8) : List Char :=
  decimal a.toNat ++ '.' :: decimal b.toNat ++ '.' :: decimal c.toNat ++ '.' :: decimal d.toNat

/-- Groups with colons between them. -/
def groupsText (gs : List UInt16) : List Char :=
  [':'].intercalate (gs.map fun g => hexadecimal g.toNat)

/-- The number of zero groups at the front. -/
def zeros (gs : List UInt16) : Nat := (gs.takeWhile (· == 0)).length

/-- Where the first of the longest runs of zero groups begins, and how long it is; the first group
of the list is the one at `start`. -/
def longestZeros (start : Nat) : List UInt16 → Nat × Nat
  | [] => (start, 0)
  | g :: gs =>
    let here := zeros (g :: gs)
    let later := longestZeros (start + 1) gs
    if later.2 ≤ here then (start, here) else later

/-- The high and the low byte of a group. -/
def bytes (g : UInt16) : UInt8 × UInt8 := ((g >>> 8).toUInt8, g.toUInt8)

/-- What an address of version 6 begins with when it embeds one of version 4. -/
def mappedPrefix : List UInt16 := [0, 0, 0, 0, 0, 0xffff]

def v6Text (gs : List UInt16) : List Char :=
  match gs.take 6 == mappedPrefix, gs.drop 6 with
  | true, [x, y] => "::ffff:".toList ++ v4Text (bytes x).1 (bytes x).2 (bytes y).1 (bytes y).2
  | _, _ =>
    let (start, n) := longestZeros 0 gs
    if 1 < n then groupsText (gs.take start) ++ ':' :: ':' :: groupsText (gs.drop (start + n))
    else groupsText gs

/-- The canonical text of an address. -/
def render : Address → List Char
  | v4 a b c d => v4Text a b c d
  | v6 gs _ => v6Text gs

def text (a : Address) : String := String.ofList a.render

/-! ### Reading -/

/-- How a number may be written: its radix, the most digits it may have, whether zeros may stand in
front, and its largest value. -/
structure NumberForm where
  radix : Nat
  maxDigits : Option Nat
  zeroPrefix : Bool
  limit : Nat

/-- A part of a dotted address. -/
def octetForm : NumberForm := ⟨10, some 3, false, 255⟩

/-- A group of an address of version 6. -/
def groupForm : NumberForm := ⟨16, some 4, true, 65535⟩

/-- The number of a service at an address. -/
def serviceForm : NumberForm := ⟨10, none, true, 65535⟩

/-- A scope of an address of version 6. -/
def scopeForm : NumberForm := ⟨10, none, true, 4294967295⟩

/-- The digits at the front, all of them, as a number of the given form. -/
def number? (f : NumberForm) (cs : List Char) : Option (Nat × List Char) :=
  let ds := cs.takeWhile fun c => (digit? f.radix c).isSome
  let v := ofDigits f.radix (ds.filterMap (digit? f.radix))
  if ds.isEmpty || f.maxDigits.any (· < ds.length) || f.limit < v ||
      (!f.zeroPrefix && ds.head? == some '0' && 1 < ds.length) then none
  else some (v, cs.drop ds.length)

/-- Four bytes with points between them. -/
def v4? (cs : List Char) : Option ((UInt8 × UInt8 × UInt8 × UInt8) × List Char) := do
  let (a, cs) ← number? octetForm cs
  let (b, cs) ← number? octetForm (← skip? '.' cs)
  let (c, cs) ← number? octetForm (← skip? '.' cs)
  let (d, cs) ← number? octetForm (← skip? '.' cs)
  return ((a.toUInt8, b.toUInt8, c.toUInt8, d.toUInt8), cs)

def group (hi lo : UInt8) : UInt16 := hi.toUInt16 * 256 + lo.toUInt16

/-- At most `limit` groups with colons between them, of which the last two may be written as a
dotted address; tells whether they were. -/
def groups (limit : Nat) (first : Bool) (cs : List Char) : List UInt16 × Bool × List Char :=
  match limit with
  | 0 => ([], false, cs)
  | n + 1 =>
    match (if first then some cs else skip? ':' cs) with
    | none => ([], false, cs)
    | some rest =>
      match (if 0 < n then v4? rest else none) with
      | some ((a, b, c, d), rest) => ([group a b, group c d], true, rest)
      | none =>
        match number? groupForm rest with
        | none => ([], false, cs)
        | some (g, rest) =>
          let (gs, dotted, rest) := groups n false rest
          (g.toUInt16 :: gs, dotted, rest)

/-- Eight groups, or fewer with `::` in place of the missing ones. -/
def v6? (cs : List Char) : Option (Address × List Char) := do
  let (head, dotted, cs) := groups 8 true cs
  if h : head.length = 8 then return (.v6 head h, cs)
  else if dotted then none
  else
    let cs ← skip? ':' (← skip? ':' cs)
    let (tail, _, cs) := groups (7 - head.length) true cs
    let gs := head ++ List.replicate (8 - head.length - tail.length) 0 ++ tail
    if h : gs.length = 8 then return (.v6 gs h, cs) else none

/-- An address at the front: of version 4 if one is there, and else of version 6. -/
def front? (cs : List Char) : Option (Address × List Char) :=
  match v4? cs with
  | some ((a, b, c, d), cs) => some (.v4 a b c d, cs)
  | none => v6? cs

/-- Reads an address. -/
def parse? (cs : List Char) : Option Address :=
  match front? cs with
  | some (a, []) => some a
  | _ => none

/-! ### Socket addresses -/

/-- The number of a service after a colon. -/
def service? (cs : List Char) : Option (Nat × List Char) := do
  number? serviceForm (← skip? ':' cs)

/-- A scope after a percent sign, or nothing. -/
def skipScope (cs : List Char) : List Char :=
  match (skip? '%' cs).bind (number? scopeForm) with
  | some (_, rest) => rest
  | none => cs

/-- An address of version 6 in brackets with the number of a service. -/
def socketV6? (cs : List Char) : Option ((Address × Nat) × List Char) := do
  let (a, cs) ← v6? (← skip? '[' cs)
  let cs ← skip? ']' (skipScope cs)
  let (p, cs) ← service? cs
  return ((a, p), cs)

/-- An address of version 4 with the number of a service. -/
def socketV4? (cs : List Char) : Option ((Address × Nat) × List Char) := do
  let ((a, b, c, d), cs) ← v4? cs
  let (p, cs) ← service? cs
  return ((.v4 a b c d, p), cs)

/-- Reads the address of a socket. -/
def parseSocket? (cs : List Char) : Option (Address × Nat) :=
  match (socketV4? cs).or (socketV6? cs) with
  | some (s, []) => some s
  | _ => none

end Address
end EdgeGateway

import EdgeGateway.Time.Instant
import EdgeGateway.Text.Blank
import EdgeGateway.Text.Digit

/-!
# Instants as RFC 3339 text

An instant is written in UTC, with the fewest of 0, 3, 6 or 9 digits of its second that are exact;
a year outside of 0 to 9999 has a sign. It is read leniently: blanks may stand before every number
and after every part, numbers need not be padded, the date and the time are parted by a `T` in
either case or a blank, digits beyond nanoseconds are dropped, and the offset from UTC may be `Z`
or `UTC` in either case or hours and minutes after a sign.
-/

namespace EdgeGateway.Rfc3339

open EdgeGateway.Text

/-! ### Writing -/

/-- The decimal digits of a number, with zeros in front up to `width`. -/
def padded (width n : Nat) : List Char :=
  let ds := Nat.toDigits 10 n
  List.replicate (width - ds.length) '0' ++ ds

def yearText (year : Int) : List Char :=
  if year < 0 then '-' :: padded 4 year.natAbs
  else if year ≤ 9999 then padded 4 year.toNat
  else '+' :: padded 4 year.toNat

/-- The digits of a part of a second below one. -/
def fractionText (nanos : Nat) : List Char :=
  if nanos = 0 then []
  else if nanos % 1000000 = 0 then '.' :: padded 3 (nanos / 1000000)
  else if nanos % 1000 = 0 then '.' :: padded 6 (nanos / 1000)
  else '.' :: padded 9 nanos

def render (i : Instant) : List Char :=
  let leap := if 1000000000 ≤ i.nanos then 1 else 0
  yearText i.date.year ++ '-' :: padded 2 i.date.month ++ '-' :: padded 2 i.date.day ++
    'T' :: padded 2 (i.second / 3600) ++ ':' :: padded 2 (i.second / 60 % 60) ++
    ':' :: padded 2 (i.second % 60 + leap) ++ fractionText (i.nanos % 1000000000) ++ ['Z']

/-- The text of an instant. -/
def text (i : Instant) : String := String.ofList (render i)

/-! ### Reading -/

/-- A number of one to `width` digits. -/
def number? (width : Nat) (cs : List Char) : Option (Nat × List Char) :=
  let ds := (cs.take width).takeWhile Char.isDigit
  if ds.isEmpty then none else some (ofDigits 10 (ds.filterMap (digit? 10)), cs.drop ds.length)

/-- A number after blanks. -/
def field? (width : Nat) (cs : List Char) : Option (Nat × List Char) := number? width (trimStart cs)

/-- A year after blanks: four digits at most, or any number of them after a sign. -/
def year? (cs : List Char) : Option (Int × List Char) :=
  match trimStart cs with
  | '-' :: rest => (number? rest.length rest).map fun (n, r) => (-(n : Int), r)
  | '+' :: rest => (number? rest.length rest).map fun (n, r) => ((n : Int), r)
  | rest => (number? 4 rest).map fun (n, r) => ((n : Int), r)

/-- The character `c` after blanks. -/
def mark? (c : Char) (cs : List Char) : Option (List Char) :=
  match trimStart cs with
  | c' :: rest => if c = c' then some rest else none
  | [] => none

/-- Nanoseconds after a point: the first nine digits count, and one is needed. -/
def nanos? : List Char → Option (Nat × List Char)
  | '.' :: rest => do
    let (n, r) ← number? 9 rest
    let used := rest.length - r.length
    return (n * Nat.pow 10 (9 - used), r.dropWhile Char.isDigit)
  | cs => some (0, cs)

/-- Two digits. -/
def pair? : List Char → Option (Nat × List Char)
  | a :: b :: rest => do
    let tens ← digit? 10 a
    let ones ← digit? 10 b
    return (tens * 10 + ones, rest)
  | _ => none

/-- An offset from UTC in seconds: hours and minutes after a sign, with colons or blanks between. -/
def signedOffset? : List Char → Option (Int × List Char)
  | s :: rest => do
    let sign : Int ← if s = '+' then some 1
      else if s = '-' || s = '\u2212' then some (-1) else none
    let (h, rest) ← pair? rest
    let (m, rest) ← pair? (rest.dropWhile fun c => c = ':' || isBlank c)
    if m < 60 && h < 24 then return (sign * (h * 3600 + m * 60 : Nat), rest) else none
  | [] => none

def offset? (cs : List Char) : Option (Int × List Char) :=
  match cs with
  | 'Z' :: rest => some (0, rest)
  | 'z' :: rest => some (0, rest)
  | a :: b :: c :: rest =>
    if [a, b, c].map Char.toUpper = ['U', 'T', 'C'] then some (0, rest)
    else signedOffset? (a :: b :: c :: rest)
  | cs => signedOffset? cs

/-- A date and a time of day without an offset. -/
def local? (cs : List Char) : Option (Instant × List Char) := do
  let (year, cs) ← year? cs
  let cs ← mark? '-' cs
  let (month, cs) ← field? 2 cs
  let cs ← mark? '-' cs
  let (day, cs) ← field? 2 cs
  let cs ← match cs with
    | c :: cs => if c = 'T' || c = 't' || c = ' ' then some cs else none
    | [] => none
  let (hour, cs) ← field? 2 cs
  let cs ← mark? ':' cs
  let (minute, cs) ← field? 2 cs
  let cs ← mark? ':' cs
  let (second, cs) ← field? 2 cs
  let (nanos, cs) ← nanos? cs
  let date ← Date.ofParts? year month day
  let leap := second = 60
  let s := hour * 3600 + minute * 60 + (if leap then 59 else second)
  let n := nanos + (if leap then 1000000000 else 0)
  if hour < 24 ∧ minute < 60 ∧ second ≤ 60 then
    if h : s < 86400 ∧ n < 2000000000 ∧ (1000000000 ≤ n → s % 60 = 59) then
      return (⟨date, s, n, h.1, h.2.1, h.2.2⟩, cs)
    else none
  else none

/-- Reads an instant; nothing but blanks may follow it. -/
def parse? (cs : List Char) : Option Instant := do
  let (i, cs) ← local? cs
  let (offset, cs) ← offset? (trimStart cs)
  if (trimStart cs).isEmpty then i.ofLocal? offset else none

end EdgeGateway.Rfc3339

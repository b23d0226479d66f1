import EdgeGateway.Json.Number
import EdgeGateway.Time.Date
import EdgeGateway.Toml.Text
import EdgeGateway.Toml.Value

/-!
# Numbers and dates of settings

An integer has 64 bits; underscores may stand between its digits. Dates and times are checked and
not kept, and so are fractions.
-/

namespace EdgeGateway.Toml

open Text

/-- Digits with single underscores between them; at least one. -/
def digits? (radix : Nat) : List Char → Option (List Nat × List Char)
  | [] => none
  | c :: cs =>
    match digit? radix c with
    | none => none
    | some d =>
      match cs with
      | '_' :: cs => (digits? radix cs).map fun (ds, r) => (d :: ds, r)
      | cs =>
        match digits? radix cs with
        | some (ds, r) => some (d :: ds, r)
        | none => some ([d], cs)

/-- A sign, if there is one: whether it is a minus, and what follows. -/
def sign : List Char → Bool × List Char
  | '-' :: cs => (true, cs)
  | '+' :: cs => (false, cs)
  | cs => (false, cs)

/-- Decimal digits without a superfluous zero in front. -/
def decimal? : List Char → Option (List Nat × List Char)
  | '0' :: cs => some ([0], cs)
  | cs => digits? 10 cs

/-- Sixty-four bits hold the integer. -/
def fits (i : Int) : Bool := -0x8000000000000000 ≤ i && i ≤ 0x7FFFFFFFFFFFFFFF

def ofRadix? (radix : Nat) (cs : List Char) : Option (Value × List Char) := do
  let (ds, cs) ← digits? radix cs
  let i : Int := ofDigits radix ds
  if fits i then some (.integer i, cs) else none

/-- An integer in one of four radixes. -/
def integer? : List Char → Option (Value × List Char)
  | '0' :: 'x' :: cs => ofRadix? 16 cs
  | '0' :: 'o' :: cs => ofRadix? 8 cs
  | '0' :: 'b' :: cs => ofRadix? 2 cs
  | cs => do
    let (negative, cs) := sign cs
    let (ds, cs) ← decimal? cs
    let n : Int := ofDigits 10 ds
    let i := if negative then -n else n
    if fits i then some (.integer i, cs) else none

/-! ### Fractions -/

/-- The exponent after its letter. -/
def exponent? : List Char → Option (Int × List Char)
  | c :: cs =>
    if c == 'e' || c == 'E' then do
      let (negative, cs) := sign cs
      let (ds, cs) ← digits? 10 cs
      let n : Int := ofDigits 10 ds
      return (if negative then -n else n, cs)
    else none
  | [] => none

/-- The value is beyond the largest double, or would be rounded to beyond it. -/
def overflows (significand : Nat) (exponent : Int) : Bool :=
  if significand = 0 then false
  else if 400 < exponent then true
  else if 0 ≤ exponent then Json.Number.doubleLimit ≤ significand * Nat.pow 10 exponent.toNat
  else if (Nat.toDigits 10 significand).length < (-exponent).toNat then false
  else Json.Number.doubleLimit * Nat.pow 10 (-exponent).toNat ≤ significand

/-- A number with a fraction or an exponent; a positive one must not be too large. -/
def fraction? (cs : List Char) : Option (Value × List Char) := do
  let (negative, cs) := sign cs
  let (whole, cs) ← decimal? cs
  let checked (ds : List Nat) (e : Int) (cs : List Char) : Option (Value × List Char) :=
    if !negative && overflows (ofDigits 10 ds) e then none else some (.float, cs)
  match cs with
  | '.' :: cs => do
    let (part, cs) ← digits? 10 cs
    let shift : Int := part.length
    match cs with
    | c :: _ =>
      if c == 'e' || c == 'E' then
        let (e, cs) ← exponent? cs
        checked (whole ++ part) (e - shift) cs
      else checked (whole ++ part) (-shift) cs
    | [] => checked (whole ++ part) (-shift) cs
  | cs => do
    let (e, cs) ← exponent? cs
    checked whole e cs

/-- An infinity or what is no number. -/
def special? (cs : List Char) : Option (Value × List Char) :=
  match (sign cs).2 with
  | 'i' :: 'n' :: 'f' :: cs => some (.float, cs)
  | 'n' :: 'a' :: 'n' :: cs => some (.float, cs)
  | _ => none

/-! ### Dates and times -/

/-- `n` digits, as a number between two bounds. -/
def fixed? (n lo hi : Nat) (cs : List Char) : Option (Nat × List Char) := do
  let ds ← (cs.take n).mapM (digit? 10)
  let v := ofDigits 10 ds
  if ds.length = n ∧ lo ≤ v ∧ v ≤ hi then some (v, cs.drop n) else none

def fullDate? (cs : List Char) : Option (List Char) := do
  let (year, cs) ← fixed? 4 0 9999 cs
  let (month, cs) ← fixed? 2 1 12 (← skip? '-' cs)
  let (_, cs) ← fixed? 2 1 (daysInMonth year month) (← skip? '-' cs)
  return cs

/-- A time of the day, with any number of digits after the seconds. -/
def time? (cs : List Char) : Option (List Char) := do
  let (_, cs) ← fixed? 2 0 23 cs
  let (_, cs) ← fixed? 2 0 59 (← skip? ':' cs)
  let (_, cs) ← fixed? 2 0 60 (← skip? ':' cs)
  match cs with
  | '.' :: rest =>
    let ds := rest.takeWhile Char.isDigit
    some (if ds.isEmpty then cs else rest.drop ds.length)
  | cs => some cs

def offset? : List Char → Option (List Char)
  | 'Z' :: cs => some cs
  | 'z' :: cs => some cs
  | c :: cs =>
    if c == '+' || c == '-' then do
      let (_, cs) ← fixed? 2 0 23 cs
      let (_, cs) ← fixed? 2 0 59 (← skip? ':' cs)
      return cs
    else none
  | [] => none

/-- A date, a time, or both with or without an offset. -/
def date? (cs : List Char) : Option (Value × List Char) :=
  match fullDate? cs with
  | none => (time? cs).map fun cs => (.date, cs)
  | some cs =>
    match cs with
    | c :: rest =>
      if c == 'T' || c == 't' || c == ' ' then
        match time? rest with
        | some rest => some (.date, (offset? rest).getD rest)
        | none => some (.date, cs)
      else some (.date, cs)
    | [] => some (.date, [])

/-- A value that begins with a sign or a digit. -/
def number? (cs : List Char) : Option (Value × List Char) :=
  ((date? cs).or (fraction? cs)).or ((special? cs).or (integer? cs))

/-- A truth value. -/
def truth? : List Char → Option (Value × List Char)
  | 't' :: 'r' :: 'u' :: 'e' :: cs => some (.bool true, cs)
  | 'f' :: 'a' :: 'l' :: 's' :: 'e' :: cs => some (.bool false, cs)
  | _ => none

end EdgeGateway.Toml

/-!
# Base64

Bytes as characters of six bits each. Two alphabets differ in their last two characters; the
standard one fills the last group of four up with `=`, the one for addresses does not. The bits
that a last character has too many must be zero, so every sequence of bytes has one text.
-/

namespace EdgeGateway.Text.Base64

/-- The value of a character, where `c62` and `c63` are the last two of the alphabet. -/
def value? (c62 c63 : Char) (c : Char) : Option Nat :=
  let n := c.toNat
  if 'A' ≤ c && c ≤ 'Z' then some (n - 65)
  else if 'a' ≤ c && c ≤ 'z' then some (n - 71)
  else if '0' ≤ c && c ≤ '9' then some (n + 4)
  else if c = c62 then some 62
  else if c = c63 then some 63
  else none

/-- The bytes that values of six bits make. -/
def bytes? : List Nat → Option (List UInt8)
  | [] => some []
  | [_] => none
  | [a, b] => if b % 16 = 0 then some [(a * 4 + b / 16).toUInt8] else none
  | [a, b, c] =>
    if c % 4 = 0 then some [(a * 4 + b / 16).toUInt8, (b * 16 + c / 4).toUInt8] else none
  | a :: b :: c :: d :: rest =>
    (bytes? rest).map fun bs =>
      (a * 4 + b / 16).toUInt8 :: (b * 16 + c / 4).toUInt8 :: (c * 64 + d).toUInt8 :: bs

/-- Reads a text without filling in the alphabet for addresses. -/
def decodeUrl? (cs : List Char) : Option (List UInt8) := do
  bytes? (← cs.mapM (value? '-' '_'))

/-- Reads a text with its filling in the standard alphabet. -/
def decode? (cs : List Char) : Option (List UInt8) := do
  let body := cs.takeWhile (· != '=')
  let filling := cs.drop body.length
  if filling == List.replicate ((4 - body.length % 4) % 4) '=' then
    bytes? (← body.mapM (value? '+' '/'))
  else none

end EdgeGateway.Text.Base64

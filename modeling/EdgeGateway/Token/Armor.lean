import EdgeGateway.Text.Base64
import EdgeGateway.Text.Blank

/-!
# Armored keys

Binary data between a line `-----BEGIN label-----` and a line `-----END label-----`, as base64 in
lines. Lines of the form `name: value` and an empty line may stand before it. Only the first block
of a text counts.
-/

namespace EdgeGateway.Token

/-- A block of an armored text. -/
structure Armor where
  label : String
  contents : List UInt8
  deriving DecidableEq, Inhabited

namespace Armor

/-- What stands before the first occurrence of a marker and what follows it. The search does not
step back: after `found` characters that matched, one that does not is passed over with them. -/
def cut? (marker : List UInt8) : Nat → List UInt8 → List UInt8 → Option (List UInt8 × List UInt8)
  | _, _, [] => none
  | found, before, b :: bs =>
    let found := if marker[found]? = some b then found + 1 else 0
    if found = marker.length then some ((b :: before).reverse.take (before.length + 1 - found), bs)
    else cut? marker found (b :: before) bs

/-- What stands before the first occurrence of a marker and what follows it. -/
def before? (marker : String) (bs : List UInt8) : Option (List UInt8 × List UInt8) :=
  cut? marker.toUTF8.toList 0 [] bs

/-- The bytes after the blanks at the front. -/
def skipBlanks (bs : List UInt8) : List UInt8 :=
  bs.dropWhile fun b => b == 32 || b == 10 || b == 9 || b == 13

/-- The lines of a text, without what ends them. -/
def lines (cs : List Char) : List (List Char) :=
  let ls := cs.splitOn '\n'
  let ls := if ls.getLast? == some [] then ls.dropLast else ls
  ls.map fun l => if l.getLast? == some '\r' then l.dropLast else l

/-- The lines that stand before an empty one, and the data after it. -/
def splitHead (body : List UInt8) : List UInt8 × List UInt8 :=
  ((before? "\n\n" body).or (before? "\r\n\r\n" body)).getD ([], body)

def text? (bs : List UInt8) : Option (List Char) :=
  (String.fromUTF8? ⟨bs.toArray⟩).map String.toList

/-- Reads the first block of a text. -/
def parse? (bs : List UInt8) : Option Armor := do
  let (_, bs) ← before? "-----BEGIN " bs
  let (label, bs) ← before? "-----" bs
  let (body, bs) ← before? "-----END " (skipBlanks bs)
  let (endLabel, _) ← before? "-----" bs
  let (head, data) := splitHead body
  let label ← text? label
  if label.isEmpty || text? endLabel != some label then none
  else
    let data ← text? data
    let contents ← Text.Base64.decode? ((lines data).flatMap Text.trimEnd)
    if (lines (← text? head)).all fun l => l.contains ':' then
      some ⟨String.ofList label, contents⟩
    else none

end Armor
end EdgeGateway.Token

import EdgeGateway.Text.Digit

/-!
# Texts and keys of settings

A text stands between single or double quotes, or between three of either, where it may go over
several lines. Between double quotes a backslash begins an escape; between three of them it may
also join lines. A key is bare or a text of one line.
-/

namespace EdgeGateway.Toml

open Text

def isSpace (c : Char) : Bool := c == ' ' || c == '\t'

def skipSpaces (cs : List Char) : List Char := cs.dropWhile isSpace

/-- What follows the end of a line at the front. -/
def lineEnd? : List Char → Option (List Char)
  | '\n' :: cs => some cs
  | '\r' :: '\n' :: cs => some cs
  | _ => none

/-- A character that may stand in a text or a comment: the tab and all that are no control
characters. -/
def isTextChar (c : Char) : Bool := c == '\t' || (0x20 ≤ c.toNat && c.toNat != 0x7F)

/-! ### Escapes -/

/-- A character by `n` hexadecimal digits. -/
def codePoint? (n : Nat) (cs : List Char) : Option (Char × List Char) := do
  let v := ofDigits 16 (← (cs.take n).mapM hexDigit?)
  if (cs.take n).length = n ∧ (v < 0xD800 ∨ (0xDFFF < v ∧ v < 0x110000)) then
    some (Char.ofNat v, cs.drop n)
  else none

/-- The character that an escape stands for, after its backslash. -/
def escape? : List Char → Option (Char × List Char)
  | 'b' :: cs => some ('\x08', cs)
  | 't' :: cs => some ('\t', cs)
  | 'n' :: cs => some ('\n', cs)
  | 'f' :: cs => some ('\x0c', cs)
  | 'r' :: cs => some ('\r', cs)
  | '"' :: cs => some ('"', cs)
  | '\\' :: cs => some ('\\', cs)
  | 'u' :: cs => codePoint? 4 cs
  | 'U' :: cs => codePoint? 8 cs
  | _ => none

/-- What follows the blanks and line ends after a backslash at the end of a line. -/
def joinLines (cs : List Char) : List Char :=
  cs.dropWhile fun c => isSpace c || c == '\n' || c == '\r'

/-- No carriage return stands alone in what `joinLines` passed over. -/
def joinsCleanly : List Char → Bool
  | '\r' :: '\n' :: cs => joinsCleanly cs
  | '\r' :: _ => false
  | c :: cs => !(isSpace c || c == '\n') || joinsCleanly cs
  | [] => true

/-! ### Texts of one line -/

/-- The rest of a text between single quotes. -/
def literalLine? (cs : List Char) : Option (List Char × List Char) :=
  let body := cs.takeWhile (· != '\x27')
  match cs.drop body.length with
  | _ :: rest => if body.all isTextChar then some (body, rest) else none
  | [] => none

/-- The rest of a text between double quotes; `fuel` bounds its length. -/
def quotedLine? : Nat → List Char → Option (List Char × List Char)
  | 0, _ => none
  | _ + 1, [] => none
  | _ + 1, '"' :: cs => some ([], cs)
  | fuel + 1, '\\' :: cs => do
    let (c, cs) ← escape? cs
    let (text, rest) ← quotedLine? fuel cs
    return (c :: text, rest)
  | fuel + 1, c :: cs => do
    if isTextChar c then
      let (text, rest) ← quotedLine? fuel cs
      return (c :: text, rest)
    else none

/-! ### Texts of several lines -/

/-- The quotes at the front of what follows a text, of which up to two belong to it. -/
def closing? (quote : Char) (cs : List Char) : Option (List Char × List Char) :=
  let n := min 5 (cs.takeWhile (· == quote)).length
  if n < 3 then none else some (List.replicate (n - 3) quote, cs.drop n)

/-- The rest of a text between three single quotes; `fuel` bounds its length. -/
def literalLines? : Nat → List Char → Option (List Char × List Char)
  | 0, _ => none
  | fuel + 1, cs =>
    match closing? '\x27' cs with
    | some r => some r
    | none =>
      match lineEnd? cs, cs with
      | some cs, _ => (literalLines? fuel cs).map fun (t, r) => ('\n' :: t, r)
      | none, c :: cs =>
        if isTextChar c then (literalLines? fuel cs).map fun (t, r) => (c :: t, r) else none
      | none, [] => none

/-- The rest of a text between three double quotes; `fuel` bounds its length. -/
def quotedLines? : Nat → List Char → Option (List Char × List Char)
  | 0, _ => none
  | fuel + 1, cs =>
    match closing? '"' cs with
    | some r => some r
    | none =>
      match lineEnd? cs, cs with
      | some cs, _ => (quotedLines? fuel cs).map fun (t, r) => ('\n' :: t, r)
      | none, '\\' :: cs =>
        if (lineEnd? (skipSpaces cs)).isSome then
          if joinsCleanly cs then quotedLines? fuel (joinLines cs) else none
        else do
          let (c, cs) ← escape? cs
          let (t, r) ← quotedLines? fuel cs
          return (c :: t, r)
      | none, c :: cs =>
        if isTextChar c then (quotedLines? fuel cs).map fun (t, r) => (c :: t, r) else none
      | none, [] => none

/-- What follows a line end at the front, if one is there. -/
def skipLineEnd (cs : List Char) : List Char := (lineEnd? cs).getD cs

/-- A text in quotes. -/
def text? : List Char → Option (List Char × List Char)
  | '"' :: '"' :: '"' :: cs => quotedLines? (cs.length + 1) (skipLineEnd cs)
  | '\x27' :: '\x27' :: '\x27' :: cs => literalLines? (cs.length + 1) (skipLineEnd cs)
  | '"' :: cs => quotedLine? (cs.length + 1) cs
  | '\x27' :: cs => literalLine? cs
  | _ => none

/-! ### Keys -/

def isBareKeyChar (c : Char) : Bool := c.isAlphanum || c == '_' || c == '-'

/-- A key without points. -/
def simpleKey? : List Char → Option (String × List Char)
  | '"' :: cs => (quotedLine? (cs.length + 1) cs).map fun (k, r) => (String.ofList k, r)
  | '\x27' :: cs => (literalLine? cs).map fun (k, r) => (String.ofList k, r)
  | cs =>
    let k := cs.takeWhile isBareKeyChar
    if k.isEmpty then none else some (String.ofList k, cs.drop k.length)

/-- A key, cut at its points, with at most as many parts as the first argument says. -/
def key? : Nat → List Char → Option (List String × List Char)
  | 0, _ => none
  | parts + 1, cs => do
    let (k, cs) ← simpleKey? (skipSpaces cs)
    match skipSpaces cs with
    | '.' :: cs =>
      let (ks, cs) ← key? parts cs
      return (k :: ks, cs)
    | cs => return ([k], cs)

end EdgeGateway.Toml

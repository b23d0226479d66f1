import EdgeGateway.Json.Tree

/-!
# Compact JSON text

Values are written without blanks. In a string the quote, the backslash and the characters below
U+0020 are escaped, five of them by a letter of their own and the others by four lower-case
hexadecimal digits; every other character stands for itself.
-/

namespace EdgeGateway.Json

/-- A character as it stands inside a string literal. -/
def escape (c : Char) : List Char :=
  if c = '"' then ['\\', '"']
  else if c = '\\' then ['\\', '\\']
  else if c = '\x08' then ['\\', 'b']
  else if c = '\x0c' then ['\\', 'f']
  else if c = '\n' then ['\\', 'n']
  else if c = '\r' then ['\\', 'r']
  else if c = '\t' then ['\\', 't']
  else if c.toNat < 0x20 then
    ['\\', 'u', '0', '0', Nat.digitChar (c.toNat / 16), Nat.digitChar (c.toNat % 16)]
  else [c]

/-- The literal of a text. -/
def quote (s : String) : List Char := '"' :: s.toList.flatMap escape ++ ['"']

/-- A number by its digits. -/
def Number.render (n : Number) : List Char :=
  (if n.negative then ['-'] else []) ++ n.whole.map Nat.digitChar ++
    (if n.fraction.isEmpty then [] else '.' :: n.fraction.map Nat.digitChar) ++
    match n.exponent with
    | none => []
    | some e => 'e' :: (toString e).toList

namespace Tree

mutual

/-- The compact text of a value; what has no text of its own is written as an empty one. -/
def render : Tree → List Char
  | .null => "null".toList
  | .bool b => (if b then "true" else "false").toList
  | .number n => n.render
  | .text s => quote (s.getD "")
  | .array items => '[' :: renderItems items ++ [']']
  | .object members => '\x7b' :: renderMembers members ++ ['\x7d']
  | .broken => []

def renderItems : List Tree → List Char
  | [] => []
  | [t] => t.render
  | t :: ts => t.render ++ ',' :: renderItems ts

def renderMembers : List (Option String × Tree) → List Char
  | [] => []
  | [(k, t)] => quote (k.getD "") ++ ':' :: t.render
  | (k, t) :: ms => quote (k.getD "") ++ ':' :: (t.render ++ ',' :: renderMembers ms)

end

/-- The compact text of a value. -/
def compress (t : Tree) : String := String.ofList t.render

/-- An object from keys and values. -/
def ofMembers (ms : List (String × Tree)) : Tree := .object (ms.map fun (k, t) => (some k, t))

/-- A string. -/
def str (s : String) : Tree := .text (some s)

/-- An integer. -/
def int (i : Int) : Tree := .number (.ofInt i)

end Tree
end EdgeGateway.Json

import EdgeGateway.Toml.Value
import EdgeGateway.Toml.Scalar

/-!
# Writing settings

A document of sections is written with a header for each section and a line for each of its keys.
A list of several values goes over several lines. A text stands between double quotes with escapes,
unless it has a backslash and can be written plainly between single quotes.
-/

namespace EdgeGateway.Toml

/-! ### Texts -/

/-- Three single quotes stand in a row. -/
def hasThreeQuotes : List Char → Bool
  | '\x27' :: '\x27' :: '\x27' :: _ => true
  | _ :: cs => hasThreeQuotes cs
  | [] => false

/-- A text that may stand between single quotes as it is, over several lines if need be. -/
def isPlain (cs : List Char) : Bool :=
  cs.all (fun c => isTextChar c || c == '\n') && !hasThreeQuotes cs &&
    cs.getLast? != some '\x27'

/-- The four digits of a control character. -/
def controlDigits (c : Char) : List Char :=
  ['0', '0', (Nat.digitChar (c.toNat / 16)).toUpper, (Nat.digitChar (c.toNat % 16)).toUpper]

/-- A character between double quotes; in a text of several lines a line end stands for itself. -/
def escaped (lines : Bool) (c : Char) : List Char :=
  match c with
  | '\x08' => ['\\', 'b']
  | '\t' => ['\\', 't']
  | '\n' => if lines then ['\n'] else ['\\', 'n']
  | '\x0c' => ['\\', 'f']
  | '\r' => ['\\', 'r']
  | '"' => ['\\', '"']
  | '\\' => ['\\', '\\']
  | c => if isTextChar c then [c] else '\\' :: 'u' :: controlDigits c

/-- A text with its quotes. -/
def writeText (s : String) : List Char :=
  let cs := s.toList
  let lines := cs.contains '\n'
  if cs.contains '\\' && isPlain cs then
    let (quotes, front) : List Char × List Char :=
      if lines then (List.replicate 3 '\x27', ['\n'])
      else if cs.contains '\x27' then (List.replicate 3 '\x27', [])
      else (['\x27'], [])
    quotes ++ front ++ cs ++ quotes
  else
    let (quotes, front) : List Char × List Char :=
      if lines then (List.replicate 3 '"', ['\n']) else (['"'], [])
    quotes ++ front ++ cs.flatMap (escaped lines) ++ quotes

/-! ### Sections -/

/-- A value of a section. -/
inductive Setting
  | text (s : String)
  | number (n : UInt64)
  | texts (ss : List String)
  deriving DecidableEq, Inhabited

/-- Several texts stand on lines of their own. -/
def writeTexts (ss : List String) : List Char :=
  match ss with
  | [] => ['[', ']']
  | [s] => '[' :: writeText s ++ [']']
  | ss => '[' :: '\n' :: ss.flatMap (fun s => "    ".toList ++ writeText s ++ [',', '\n']) ++ [']']

/-- A number must fit a signed integer. -/
def writeSetting? : Setting → Option (List Char)
  | .text s => some (writeText s)
  | .number n => if fits n.toNat then some (Nat.toDigits 10 n.toNat) else none
  | .texts ss => some (writeTexts ss)

/-- A section: its name, and its keys with their values. -/
structure Section where
  name : String
  settings : List (String × Setting)
  deriving DecidableEq, Inhabited

/-- The lines of a section. -/
def Section.lines? (s : Section) : Option (List Char) := do
  let lines ← s.settings.mapM fun (k, v) =>
    (writeSetting? v).map fun v => k.toList ++ [' ', '=', ' '] ++ v ++ ['\n']
  return '[' :: s.name.toList ++ [']', '\n'] ++ lines.flatten

/-- A document of sections, with an empty line between two of them. -/
def write? (ss : List Section) : Option String :=
  (ss.mapM Section.lines?).map fun ls => String.ofList ((ls.intersperse ['\n']).flatten)

end EdgeGateway.Toml

import EdgeGateway.Toml.Scalar

/-!
# Reading settings

A document is a list of lines: a key with its value, a header that begins a table or a further
table of a list, a comment, or nothing. A value may be a list, which may go over several lines, or
a table in braces, which may not.
-/

namespace EdgeGateway.Toml

open Text

/-- The number of lists and tables in braces that may be open at a time, and of the parts of a
key. -/
def maxNesting : Nat := 79

/-- The rest of a comment. -/
def skipComment (cs : List Char) : List Char := cs.dropWhile isTextChar

/-- Passes over blanks, line ends and comments; `fuel` bounds their number. -/
def skipBlankLines : Nat → List Char → List Char
  | 0, cs => cs
  | fuel + 1, cs =>
    match skipSpaces cs with
    | '#' :: cs =>
      match lineEnd? (skipComment cs) with
      | some cs => skipBlankLines fuel cs
      | none => skipComment cs
    | cs =>
      match lineEnd? cs with
      | some cs => skipBlankLines fuel cs
      | none => cs

/-- Adds a value under a key to the entries of a table. -/
def assign (ks : List String) (v : Value) (es : Entries) : Option Entries :=
  match ks.reverse with
  | [] => none
  | k :: path => es.addDotted k v path.reverse

mutual

/-- A value, inside which `depth` brackets may be open; `fuel` bounds its length. -/
def value? : Nat → Nat → List Char → Option (Value × List Char)
  | 0, _, _ => none
  | fuel + 1, depth, cs =>
    match cs, depth with
    | '[' :: cs, depth + 1 =>
      match skipBlankLines cs.length cs with
      | ']' :: cs => some (.array [], cs)
      | cs => (items? fuel depth cs).map fun (vs, cs) => (.array vs, cs)
    | '\x7b' :: cs, depth + 1 =>
      match skipSpaces cs with
      | '\x7d' :: cs => some (.table .braces [], cs)
      | cs => (pairs? fuel depth [] cs).map fun (es, cs) => (.table .braces es, cs)
    | '[' :: _, 0 => none
    | '\x7b' :: _, 0 => none
    | '"' :: _, _ => (text? cs).map fun (t, cs) => (.text (String.ofList t), cs)
    | '\x27' :: _, _ => (text? cs).map fun (t, cs) => (.text (String.ofList t), cs)
    | cs, _ => (truth? cs).or (number? cs)

/-- The values of a list from one of them on. -/
def items? : Nat → Nat → List Char → Option (List Value × List Char)
  | 0, _, _ => none
  | fuel + 1, depth, cs => do
    let (v, cs) ← value? fuel depth cs
    match skipBlankLines cs.length cs with
    | ']' :: cs => return ([v], cs)
    | ',' :: cs =>
      match skipBlankLines cs.length cs with
      | ']' :: cs => return ([v], cs)
      | cs => do
        let (vs, cs) ← items? fuel depth cs
        return (v :: vs, cs)
    | _ => none

/-- The entries of a table in braces from one of them on. -/
def pairs? : Nat → Nat → Entries → List Char → Option (Entries × List Char)
  | 0, _, _, _ => none
  | fuel + 1, depth, es, cs => do
    let (ks, cs) ← key? maxNesting cs
    let (v, cs) ← value? fuel depth (skipSpaces (← skip? '=' cs))
    let es ← assign ks v es
    match skipSpaces cs with
    | '\x7d' :: cs => return (es, cs)
    | ',' :: cs => pairs? fuel depth es cs
    | _ => none

end

/-- What follows the rest of a line that may only hold a comment. -/
def endOfLine? (cs : List Char) : Option (List Char) :=
  let cs := match skipSpaces cs with
    | '#' :: cs => skipComment cs
    | cs => cs
  match cs with
  | [] => some []
  | cs => lineEnd? cs

/-- A document that is being read: its tables, and the path of the one that lines go to. -/
structure Draft where
  entries : Entries
  path : List String
  deriving Inhabited

namespace Draft

/-- Begins a table under a header. -/
def header (d : Draft) (ks : List String) (f : String → Entries → Option Entries) : Option Draft :=
  match ks.reverse with
  | [] => none
  | k :: path => (d.entries.under path.reverse (f k)).map fun es => ⟨es, ks⟩

/-- Reads one line. -/
def line? (d : Draft) (cs : List Char) : Option (Draft × List Char) := do
  match cs with
  | '[' :: '[' :: cs =>
    let (ks, cs) ← key? maxNesting cs
    let cs ← endOfLine? (← skip? ']' (← skip? ']' cs))
    return (← d.header ks Entries.openItem, cs)
  | '[' :: cs =>
    let (ks, cs) ← key? maxNesting cs
    let cs ← endOfLine? (← skip? ']' cs)
    return (← d.header ks Entries.openTable, cs)
  | '#' :: _ => return (d, ← endOfLine? cs)
  | cs =>
    match lineEnd? cs with
    | some cs => return (d, cs)
    | none =>
      let (ks, cs) ← key? maxNesting cs
      let (v, cs) ← value? (cs.length + 1) maxNesting (skipSpaces (← skip? '=' cs))
      let cs ← endOfLine? cs
      return ({ d with entries := ← d.entries.under d.path (assign ks v) }, cs)

/-- Reads all lines; `fuel` bounds their number. -/
def lines? : Nat → Draft → List Char → Option Draft
  | 0, _, _ => none
  | fuel + 1, d, cs =>
    match skipSpaces cs with
    | [] => some d
    | cs => do
      let (d, cs) ← d.line? cs
      lines? fuel d cs

end Draft

/-- Reads a document; a byte order mark at its front does not count. -/
def read? (text : String) : Option Entries :=
  let cs := match text.toList with
    | '\ufeff' :: cs => cs
    | cs => cs
  (Draft.lines? (cs.length + 1) ⟨[], []⟩ cs).map Draft.entries

end EdgeGateway.Toml

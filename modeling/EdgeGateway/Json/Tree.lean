import EdgeGateway.Json.Token

/-!
# What a JSON text says, up to its first offence

A text is read into a tree whether or not it is well formed: where the grammar is broken, a leaf
`broken` stands in place of all that follows. A reader that walks a tree in the order of the text
therefore meets a fault of the content before or after a fault of the grammar exactly as the two
stand in the text, and may pass over a member that it does not know by checking its grammar alone.

Nothing bounds how deeply a text nests: the reader keeps a stack of the brackets that are open.
-/

namespace EdgeGateway.Json

open EdgeGateway.Text (Symbol symbols)

/-- A JSON value; a string or a key without a Unicode text is kept as `none`. -/
inductive Tree
  | null
  | bool (b : Bool)
  | number (n : Number)
  | text (s : Option String)
  | array (items : List Tree)
  | object (members : List (Option String × Tree))
  | broken
  deriving Inhabited

/-! ### The reader -/

/-- An open bracket with what was read inside it, the newest first. -/
inductive Frame
  | array (items : List Tree)
  | object (members : List (Option String × Tree))
  | member (members : List (Option String × Tree)) (key : Option String)

/-- What may come next. -/
inductive Turn
  | value
  | firstItem
  | firstKey
  | key
  | colon (key : Option String)
  | afterValue

/-- A reader between two tokens: inside a value, or past it. -/
inductive Reader
  | reading (stack : List Frame) (turn : Turn)
  | finished (t : Tree) (trailing : Bool)

namespace Reader

/-- Closes all brackets around `t`. -/
def wrap : Tree → List Frame → Tree
  | t, [] => t
  | t, .array items :: stack => wrap (.array (t :: items).reverse) stack
  | t, .object members :: stack => wrap (.object ((none, t) :: members).reverse) stack
  | t, .member members key :: stack => wrap (.object ((key, t) :: members).reverse) stack

/-- Ends the reading at an offence. -/
def giveUp (stack : List Frame) : Reader := .finished (wrap .broken stack) false

/-- Hands a finished value to the bracket around it. -/
def deliver (t : Tree) : List Frame → Reader
  | [] => .finished t false
  | .array items :: stack => .reading (.array (t :: items) :: stack) .afterValue
  | .member members key :: stack => .reading (.object ((key, t) :: members) :: stack) .afterValue
  | .object members :: stack => giveUp (.object members :: stack)

/-- Reads the token that begins a value. -/
def beginValue (stack : List Frame) : Token → Reader
  | .null => deliver .null stack
  | .bool b => deliver (.bool b) stack
  | .number n => deliver (.number n) stack
  | .text s => deliver (.text s) stack
  | .arrayStart => .reading (.array [] :: stack) .firstItem
  | .objectStart => .reading (.object [] :: stack) .firstKey
  | _ => giveUp stack

/-- Reads one token. -/
def step : Reader → Token → Reader
  | .finished t _, _ => .finished t true
  | .reading stack .value, tok => beginValue stack tok
  | .reading (.array items :: stack) .firstItem, .arrayEnd => deliver (.array items.reverse) stack
  | .reading stack .firstItem, tok => beginValue stack tok
  | .reading (.object members :: stack) .firstKey, .objectEnd =>
    deliver (.object members.reverse) stack
  | .reading stack .firstKey, .text k => .reading stack (.colon k)
  | .reading stack .key, .text k => .reading stack (.colon k)
  | .reading (.object members :: stack) (.colon k), .colon =>
    .reading (.member members k :: stack) .value
  | .reading (.array items :: stack) .afterValue, .comma =>
    .reading (.array items :: stack) .value
  | .reading (.array items :: stack) .afterValue, .arrayEnd => deliver (.array items.reverse) stack
  | .reading (.object members :: stack) .afterValue, .comma =>
    .reading (.object members :: stack) .key
  | .reading (.object members :: stack) .afterValue, .objectEnd =>
    deliver (.object members.reverse) stack
  | .reading stack _, _ => giveUp stack

end Reader

/-- A value, and whether something other than blanks follows it. -/
structure Document where
  value : Tree
  trailing : Bool
  deriving Inhabited

namespace Document

/-- The document that the tokens of a text make. -/
def ofTokens (ts : List Token) : Document :=
  match ts.foldl Reader.step (.reading [] .value) with
  | .finished t more => ⟨t, more⟩
  | .reading stack _ => ⟨Reader.wrap .broken stack, false⟩

/-- Reads the bytes of a text. -/
def read (b : ByteArray) : Document := ofTokens (tokens (symbols b))

end Document

/-! ### Checks on a whole value -/

namespace Tree

mutual

/-- The grammar holds to the end of the value. -/
def isComplete : Tree → Bool
  | .array items => areComplete items
  | .object members => membersComplete members
  | .broken => false
  | _ => true

def areComplete : List Tree → Bool
  | [] => true
  | t :: ts => t.isComplete && areComplete ts

def membersComplete : List (Option String × Tree) → Bool
  | [] => true
  | (_, t) :: ms => t.isComplete && membersComplete ms

end

mutual

/-- The value can be held in memory: complete, with texts and keys in Unicode, numbers within
the range of a double, and at most `depth` brackets open at a time. -/
def isPlain (depth : Nat) : Tree → Bool
  | .null => true
  | .bool _ => true
  | .number n => n.isFinite
  | .text s => s.isSome
  | .array items => match depth with
    | 0 => false
    | d + 1 => arePlain d items
  | .object members => match depth with
    | 0 => false
    | d + 1 => membersPlain d members
  | .broken => false

def arePlain (depth : Nat) : List Tree → Bool
  | [] => true
  | t :: ts => t.isPlain depth && arePlain depth ts

def membersPlain (depth : Nat) : List (Option String × Tree) → Bool
  | [] => true
  | (k, t) :: ms => k.isSome && t.isPlain depth && membersPlain depth ms

end

end Tree
end EdgeGateway.Json

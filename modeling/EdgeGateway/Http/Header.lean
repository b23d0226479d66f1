/-!
# Header fields

A header field has a name, in which case does not count, and a value of bytes that hold no control
character but the tab. The fields of a request are kept in order of arrival; several may have one
name. Names are kept in lower case.
-/

namespace EdgeGateway.Http

/-- A character that may stand in a header name. -/
def isTokenChar (c : Char) : Bool :=
  c.isAlphanum || "!#$%&'*+-.^_`|~".toList.contains c

/-- The name of a header field in lower case, if the text is one. -/
def headerName? (s : String) : Option String :=
  let cs := s.toList
  if cs.isEmpty || !cs.all isTokenChar || 65535 < cs.length then none
  else some (String.ofList (cs.map Char.toLower))

/-- A byte that may stand in a header value. -/
def isValueByte (b : UInt8) : Bool := (32 ≤ b && b != 127) || b == 9

/-- A byte of readable text: printable ASCII or the tab. -/
def isReadableByte (b : UInt8) : Bool := (32 ≤ b && b < 127) || b == 9

/-- The value of a header field. -/
abbrev HeaderValue := List UInt8

/-- The text of a value, if all of it is readable. -/
def HeaderValue.text? (v : HeaderValue) : Option (List Char) :=
  if v.all isReadableByte then some (v.map fun b => Char.ofNat b.toNat) else none

/-- The value that a text is encoded as, if it may be one. -/
def HeaderValue.ofText? (s : List Char) : Option HeaderValue :=
  let bs := (String.ofList s).toUTF8.toList
  if bs.all isValueByte then some bs else none

/-- The header fields of a request: names in lower case, with values, in order of arrival. -/
structure Headers where
  fields : List (String × HeaderValue)
  deriving DecidableEq, Inhabited

namespace Headers

def empty : Headers := ⟨[]⟩

/-- The values of a name, in order. -/
def values (h : Headers) (name : String) : List HeaderValue :=
  (h.fields.filter fun f => f.1 == name).map (·.2)

/-- The first value of a name. -/
def first? (h : Headers) (name : String) : Option HeaderValue := h.fields.lookup name

def contains (h : Headers) (name : String) : Bool := h.fields.any fun f => f.1 == name

/-- The text of the first value of a name. -/
def text? (h : Headers) (name : String) : Option (List Char) :=
  (h.first? name).bind HeaderValue.text?

/-- Adds a value to those of a name. -/
def append (h : Headers) (name : String) (v : HeaderValue) : Headers :=
  ⟨h.fields ++ [(name, v)]⟩

/-- Leaves out all values of a name. -/
def remove (h : Headers) (name : String) : Headers :=
  ⟨h.fields.filter fun f => f.1 != name⟩

/-- Makes `v` the only value of a name. -/
def set (h : Headers) (name : String) (v : HeaderValue) : Headers := (h.remove name).append name v

end Headers

/-! ### Values made from texts -/

/-- The most characters of a value that is made from a text. -/
def maxValueLength : Nat := 8192

/-- A text without the characters that could split or cut a header field, and not too long. -/
def sanitize (s : List Char) : List Char :=
  (s.filter fun c => c != '\r' && c != '\n' && c != '\x00').take maxValueLength

/-- Makes the sanitized text the only value of a name; what cannot be a value changes nothing. -/
def Headers.setText (h : Headers) (name : String) (s : List Char) : Headers :=
  match HeaderValue.ofText? (sanitize s) with
  | some v => h.set name v
  | none => h

end EdgeGateway.Http

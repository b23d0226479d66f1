import EdgeGateway.KeyMap
import EdgeGateway.Net.Address
import EdgeGateway.Text.Blank
import EdgeGateway.Text.Quoted

/-!
# Lists of addresses

A list of addresses is a text with commas or blanks between them. Every address is kept by its
canonical text, so one that may be written in several ways is one address; what is no address is
left out. A list comes from a fixed number of texts, from a file, or from a source that fails.
-/

namespace EdgeGateway.Blacklist

/-- The canonical text of the address that a text writes, blanks around it aside. -/
def canonical? (s : List Char) : Option String := (Address.parse? (Text.trim s)).map Address.text

/-- A character that stands between two addresses of a list. -/
def isSeparator (c : Char) : Bool := c == ',' || Text.isBlank c

/-- The addresses of a list, in order. -/
def addresses (text : List Char) : List String :=
  (text.splitOnP isSeparator).filterMap canonical?

/-- A set of addresses by their canonical texts. -/
abbrev AddressSet := KeyMap Unit

def AddressSet.ofList (ips : List String) : AddressSet := KeyMap.ofList (ips.map fun ip => (ip, ()))

/-- What is found under the path of a file. -/
inductive File
  | missing
  | directory
  | contents (bytes : List UInt8)
  deriving DecidableEq, Inhabited

/-- The text of a file, if it is there and in UTF-8. -/
def File.text? : File → Option String
  | contents b => String.fromUTF8? ⟨b.toArray⟩
  | _ => none

/-- Why the blacklist cannot do what it is asked to. -/
inductive Failure
  | invalidAddress (text : String)
  | unreadableList (path : String)
  | unreadableBootstrap (path : String)
  | source (message : String)
  deriving DecidableEq, Inhabited

def Failure.message : Failure → String
  | invalidAddress text => s!"Invalid IP address '{text}'"
  | unreadableList path => s!"Failed to read static blacklist {Text.quoted path}"
  | unreadableBootstrap path => s!"Failed to read blacklist bootstrap {Text.quoted path}"
  | source message => message

/-- Where the static list comes from. -/
inductive Source
  | fixed (texts : List String)
  | file (path : String) (file : File)
  | failing (message : String)
  deriving DecidableEq, Inhabited

/-- Loads the static list. -/
def Source.load : Source → Except Failure AddressSet
  | fixed texts => .ok (.ofList (texts.filterMap fun t => canonical? t.toList))
  | file path f =>
    match f.text? with
    | some t => .ok (.ofList (addresses t.toList))
    | none => .error (.unreadableList path)
  | failing message => .error (.source message)

end EdgeGateway.Blacklist

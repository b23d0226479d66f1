import EdgeGateway.Text.Blank
import EdgeGateway.Text.Digit

/-!
# Log filter directives

A directive names a level, or a target and perhaps a span with its fields, for which the level
stands after an equals sign. Several directives stand with commas between them. Only whether they
can be read is decided here.
-/

namespace EdgeGateway.Launch.LogFilter

open EdgeGateway.Text (digit? ofDigits)

/-- Why a directive cannot be read. -/
inductive Fault
  | directive
  | level
  deriving DecidableEq, Inhabited

def Fault.message : Fault → String
  | directive => "invalid filter directive"
  | level => "error parsing level filter: expected one of \"off\", \"error\", \"warn\", " ++
      "\"info\", \"debug\", \"trace\", or a number 0-5"

/-- The names of levels in lower case. -/
def levelNames : List String := ["off", "error", "warn", "info", "debug", "trace"]

/-- A level by its name or by a number up to five. -/
def isLevel (cs : List Char) : Bool :=
  let digits := match cs with
    | '+' :: ds => ds
    | ds => ds
  levelNames.contains (String.ofList (cs.map Char.toLower)) ||
    (!digits.isEmpty && digits.all Char.isDigit && ofDigits 10 (digits.filterMap (digit? 10)) ≤ 5)

/-- The level after the equals sign; without one, all levels are meant. -/
def level? (cs : List Char) : Option Fault :=
  if cs.isEmpty || isLevel cs then none else some .level

/-- What follows a span: nothing, or a level. -/
def afterSpan? : List Char → Option Fault
  | [] => none
  | '=' :: cs => level? cs
  | _ => some .directive

/-- The fields of a span, none of them empty. -/
def fields? (cs : List Char) : Option Fault :=
  let fields := cs.takeWhile (· != '\x7d')
  match fields, cs.drop fields.length with
  | [], _ => some .directive
  | _, '\x7d' :: ']' :: cs => afterSpan? cs
  | _, _ => some .directive

/-- A span after its opening bracket. -/
def span? (cs : List Char) : Option Fault :=
  match cs.dropWhile fun c => c != ']' && c != '\x7b' with
  | ']' :: cs => afterSpan? cs
  | '\x7b' :: cs => fields? cs
  | _ => some .directive

/-- Whether a directive can begin with the character. -/
def canBegin (c : Char) : Bool :=
  c.isAlphanum || 0x80 ≤ c.toNat || c == '-' || c == ':' || c == '_'

/-- The fault of one directive. -/
def directive? (cs : List Char) : Option Fault :=
  match cs with
  | [] => some .directive
  | '[' :: cs => span? cs
  | c :: _ =>
    if !canBegin c then some .directive
    else match cs.dropWhile fun c => c != '=' && c != '[' with
      | '=' :: cs => level? cs
      | '[' :: cs => span? cs
      | _ => none

/-- The parts of a text between commas. -/
def parts (cs : List Char) : List (List Char) :=
  cs.foldr (fun c ps => if c == ',' then [] :: ps else (c :: ps.headD []) :: ps.tail) [[]]

/-- The fault of the first directive that cannot be read; empty ones do not count. -/
def fault? (text : String) : Option Fault :=
  ((parts text.toList).filter (!·.isEmpty)).findSome? fun d => directive? (Text.trim d)

end EdgeGateway.Launch.LogFilter

import EdgeGateway.KeyMap
import EdgeGateway.Text.Blank
import EdgeGateway.Route.Pattern

/-!
# Rules

A rule of a route is a name with arguments, kept by key. It may be written in a shortcut form,
`name=value,value`: blanks around the name and the values do not count, empty values are dropped,
and the others get the keys `_genkey_0`, `_genkey_1` and so on. Listing the arguments goes by key,
and so puts `_genkey_10` before `_genkey_2`.
-/

namespace EdgeGateway

/-- A named condition or action of a route, with its arguments. -/
structure Rule where
  name : String
  args : KeyMap String
  deriving DecidableEq, Inhabited

namespace Rule

/-- The rule without arguments. -/
def named (name : String) : Rule := ⟨name, .empty⟩

/-- Adds an argument, in place of one with the same key. -/
def withArg (r : Rule) (key value : String) : Rule := { r with args := r.args.insert key value }

/-- The argument values, in the order of their keys. -/
def values (r : Rule) : List String := r.args.values

/-- The key of the `i`-th value of a shortcut. -/
def generatedKey (i : Nat) : String := s!"_genkey_{i}"

/-- A shortcut cut at its first `=`: the trimmed name, and the text of the values. -/
def shortcutParts (text : List Char) : List Char × List Char :=
  (Text.trim (text.takeWhile (· != '=')), (text.dropWhile (· != '=')).drop 1)

/-- The values of a shortcut: the pieces between commas, trimmed, without the empty ones. -/
def shortcutValues (text : List Char) : List (List Char) :=
  ((text.splitOn ',').map Text.trim).filter fun v => !v.isEmpty

/-- Reads a shortcut; one without a name is none. -/
def ofShortcut? (text : String) : Option Rule :=
  let (name, rest) := shortcutParts text.toList
  if name.isEmpty then none
  else
    some ⟨String.ofList name, .ofList
      ((shortcutValues rest).mapIdx fun i v => (generatedKey i, String.ofList v))⟩

/-- A rule whose name is `Path` in either case. -/
def isPath (r : Rule) : Bool := r.name.toList.map Char.toLower == ['p', 'a', 't', 'h']

/-- Some value of the rule, read as a pattern, accepts the path. -/
def acceptsPath (r : Rule) (path : String) : Bool :=
  r.values.any fun v => (Pattern.ofText v).accepts (pathSegments path)

end Rule
end EdgeGateway

/-!
# Uniform resource identifiers

The target of a request: a scheme, an authority (the text up to the first `/`, `?` or `#` after
`://`), a path and a query. A target that begins with a slash has only a path and a query, and one
without a scheme that does not is an authority alone. A fragment is dropped. The schemes `http` and
`https` are known in either case and written in lower case.
-/

namespace EdgeGateway.Http

/-- The target of a request; the path is as it was written, and may be empty. -/
structure Uri where
  scheme : Option (List Char)
  authority : Option (List Char)
  path : List Char
  query : Option (List Char)
  deriving DecidableEq, Inhabited

namespace Uri

/-- A character of a scheme. -/
def isSchemeChar (c : Char) : Bool := c.isAlphanum || c == '+' || c == '-' || c == '.' || c == '~'

/-- A character of an authority, or one that ends it. -/
def isUriChar (c : Char) : Bool := c.isAlphanum || "!#$&'()*+,-./:;=?@[]_~".toList.contains c

/-- The characters that need not be escaped in a path, and three that are let through all the same:
the quote and the braces. -/
def isPathChar (c : Char) : Bool :=
  let n := c.toNat
  n == 0x21 || (0x24 ≤ n && n ≤ 0x3B) || n == 0x3D || (0x40 ≤ n && n ≤ 0x5F) ||
    (0x61 ≤ n && n ≤ 0x7A) || n == 0x7C || n == 0x7E || n == 0x22 || n == 0x7B || n == 0x7D

/-- The characters that need not be escaped in a query. -/
def isQueryChar (c : Char) : Bool :=
  let n := c.toNat
  n == 0x21 || (0x24 ≤ n && n ≤ 0x3B) || n == 0x3D || (0x3F ≤ n && n ≤ 0x7E)

/-- The most bytes of a target. -/
def maxLength : Nat := 65534

/-- The most characters of a scheme. -/
def maxSchemeLength : Nat := 64

/-- A path and a query, without the fragment. -/
def pathAndQuery? (cs : List Char) : Option (List Char × Option (List Char)) :=
  let path := cs.takeWhile fun c => c != '?' && c != '#'
  if !path.all isPathChar then none
  else
    match cs.drop path.length with
    | '?' :: rest =>
      let query := rest.takeWhile (· != '#')
      if query.all isQueryChar then some (path, some query) else none
    | _ => some (path, none)

/-- What was seen of an authority. -/
structure AuthorityScan where
  colons : Nat := 0
  opened : Bool := false
  closed : Bool := false
  percent : Bool := false

/-- Reads one character of an authority. Colons and percent signs before an `@` belong to the user,
and those before a `]` to an address in brackets. -/
def AuthorityScan.step (s : AuthorityScan) (c : Char) : Option AuthorityScan :=
  if c = ':' then if 8 ≤ s.colons then none else some { s with colons := s.colons + 1 }
  else if c = '[' then
    if s.percent || s.opened then none else some { s with opened := true }
  else if c = ']' then
    if !s.opened || s.closed then none
    else some { s with closed := true, colons := 0, percent := false }
  else if c = '@' then some { s with colons := 0, percent := false }
  else if c = '%' then some { s with percent := true }
  else if isUriChar c then some s
  else none

/-- The text is an authority: one colon at most outside of brackets, brackets that match, and
something after an `@`. -/
def isAuthority (cs : List Char) : Bool :=
  match cs.foldlM AuthorityScan.step {} with
  | some s => s.opened == s.closed && s.colons ≤ 1 && !s.percent && cs.getLast? != some '@'
  | none => false

/-- The authority at the front, up to the first `/`, `?` or `#`, and what follows it. -/
def authority? (cs : List Char) : Option (List Char × List Char) :=
  let a := cs.takeWhile fun c => c != '/' && c != '?' && c != '#'
  if isAuthority a then some (a, cs.drop a.length) else none

/-- The text begins with `front`, in either case of its letters. -/
def startsWithAnyCase (front cs : List Char) : Bool :=
  (cs.take front.length).map Char.toLower == front

/-- The scheme before `://` and what follows; no scheme is no failure, one too long is. -/
def scheme? (cs : List Char) : Option (Option (List Char) × List Char) :=
  if startsWithAnyCase "http://".toList cs then some (some "http".toList, cs.drop 7)
  else if startsWithAnyCase "https://".toList cs then some (some "https".toList, cs.drop 8)
  else
    let s := cs.takeWhile isSchemeChar
    match cs.drop s.length with
    | ':' :: '/' :: '/' :: rest =>
      if cs.length ≤ 3 then some (none, cs)
      else if maxSchemeLength < s.length then none
      else some (some s, rest)
    | _ => some (none, cs)

/-- Reads a target. -/
def parse? (cs : List Char) : Option Uri :=
  if maxLength < (String.ofList cs).utf8ByteSize then none
  else
    match cs with
    | [] => none
    | ['*'] => some ⟨none, none, ['*'], none⟩
    | '/' :: _ => (pathAndQuery? cs).map fun (p, q) => ⟨none, none, p, q⟩
    | cs => do
      let (scheme, rest) ← scheme? cs
      let (authority, rest) ← authority? rest
      match scheme with
      | none => if rest.isEmpty then some ⟨none, some authority, [], none⟩ else none
      | some s =>
        if authority.isEmpty then none
        else
          let (p, q) ← pathAndQuery? rest
          some ⟨some s, some authority, p, q⟩

/-- The path; where one belongs and none was written, a slash. -/
def effectivePath (u : Uri) : List Char :=
  if u.path.isEmpty && (u.scheme.isSome || u.query.isSome) then ['/'] else u.path

/-- The text of a query with its question mark. -/
def queryText (u : Uri) : List Char :=
  match u.query with
  | some q => '?' :: q
  | none => []

/-- The path and the query as they were written; none in an authority alone. -/
def pathAndQueryText (u : Uri) : Option (List Char) :=
  if u.scheme.isSome || u.authority.isNone then
    let t := u.path ++ u.queryText
    some (if t.isEmpty then ['/'] else t)
  else none

/-- The text of a target. -/
def render (u : Uri) : List Char :=
  (match u.scheme with
    | some s => s ++ "://".toList
    | none => []) ++ u.authority.getD [] ++ u.effectivePath ++ u.queryText

end Uri
end EdgeGateway.Http

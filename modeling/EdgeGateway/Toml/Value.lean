/-!
# Tables of settings

A document is a tree of tables. A table may be written under a header of its own, in braces, by
keys with points in them, or only be implied by a longer header. How it came to be decides what may
still be added to it: a header may follow where a table was implied, and keys with points may go on
where such keys began.
-/

namespace EdgeGateway.Toml

/-- How a table came to be. -/
inductive Origin
  | header
  | implied
  | dotted
  | braces
  deriving DecidableEq, Inhabited

/-- A value of a document. Of numbers only integers are kept, and of dates that there is one. -/
inductive Value
  | text (s : String)
  | integer (i : Int)
  | float
  | bool (b : Bool)
  | date
  | array (items : List Value)
  | table (origin : Origin) (entries : List (String × Value))
  | tables (latest : List (String × Value)) (earlier : List Value)
  deriving Inhabited

/-- The entries of a table, in the order in which their keys came first. -/
abbrev Entries := List (String × Value)

namespace Entries

/-- Sets the value of a key. -/
def put (k : String) (v : Value) : Entries → Entries
  | [] => [(k, v)]
  | (k', v') :: es => if k = k' then (k, v) :: es else (k', v') :: put k v es

/-- Changes the table that a path of headers leads to; tables on the way that are not there are
implied. -/
def under (path : List String) (f : Entries → Option Entries) (es : Entries) : Option Entries :=
  match path with
  | [] => f es
  | k :: path =>
    match es.lookup k with
    | none => (under path f []).map fun t => put k (.table .implied t) es
    | some (.table .braces _) => none
    | some (.table o t) => (under path f t).map fun t => put k (.table o t) es
    | some (.tables t ts) => (under path f t).map fun t => put k (.tables t ts) es
    | some _ => none

/-- Begins a table under a header whose last key is `k`. -/
def openTable (k : String) (es : Entries) : Option Entries :=
  match es.lookup k with
  | none => some (put k (.table .header []) es)
  | some (.table .implied t) => some (put k (.table .header t) es)
  | some _ => none

/-- Begins a further table of a list of tables whose last key is `k`. -/
def openItem (k : String) (es : Entries) : Option Entries :=
  match es.lookup k with
  | none => some (put k (.tables [] []) es)
  | some (.tables t ts) => some (put k (.tables [] (.table .header t :: ts)) es)
  | some _ => none

/-- Adds a value under a key that is not there yet. -/
def addNew (k : String) (v : Value) (es : Entries) : Option Entries :=
  match es.lookup k with
  | none => some (put k v es)
  | some _ => none

/-- Adds a value under a key with points: `path` is what stands before the last one. The table that
it is added to must have been made by such keys. -/
def addDotted (k : String) (v : Value) (path : List String) (es : Entries) : Option Entries :=
  match path with
  | [] => addNew k v es
  | p :: path =>
    match es.lookup p with
    | none => (addDotted k v path []).map fun t => put p (.table .dotted t) es
    | some (.table .dotted t) =>
      (addDotted k v path t).map fun t => put p (.table .dotted t) es
    | some (.table .implied t) =>
      if path.isEmpty then none
      else (addDotted k v path t).map fun t => put p (.table .implied t) es
    | some (.tables t ts) =>
      if path.isEmpty then none
      else (addDotted k v path t).map fun t => put p (.tables t ts) es
    | some _ => none

end Entries
end EdgeGateway.Toml

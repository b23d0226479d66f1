import EdgeGateway.Store.Row

/-!
# The route store

The store holds one row per id. An update must name the version it was made from, and raises it by
one. A row that is not valid cannot be seen or updated, but it blocks the insertion of its id and
can be deleted. When its table is gone, the store fails in every operation.
-/

namespace EdgeGateway

open Store

/-- The rows of the route store, while it has its table. -/
structure RouteStore where
  table : Option (KeyMap Row)
  deriving DecidableEq, Inhabited

namespace RouteStore

def empty : RouteStore := ⟨some .empty⟩

/-- The store, opened anew: a table that is gone is made again. -/
def reopen (s : RouteStore) : RouteStore := ⟨some (s.table.getD .empty)⟩

/-- The table is gone. -/
def dropped : RouteStore := ⟨none⟩

/-- The rows, or the failure of a store without a table. -/
def rows (s : RouteStore) : Except StoreError (KeyMap Row) :=
  match s.table with
  | some rows => .ok rows
  | none => .error (.database "no such table")

/-- The order of a listing: by the rows' order, then by id. -/
def listedBefore (a b : String × Row) : Bool :=
  a.2.order < b.2.order || (a.2.order == b.2.order && a.1 ≤ b.1)

/-- The valid rows in the order of a listing. -/
def visible (rows : KeyMap Row) : List (String × Row) :=
  (rows.entries.filter fun e => e.2.valid).mergeSort listedBefore

/-- All valid routes, by order and then by id. The integers of all rows are read before any rules
are decoded. -/
def list (s : RouteStore) : Except StoreError (List Route) := do
  let es := visible (← s.rows)
  if es.all fun e => e.2.fits then es.mapM fun e => e.2.toRoute e.1
  else .error (.database "integer out of range")

/-- The valid row of an id, read back. -/
def lookup (rows : KeyMap Row) (id : String) : Except StoreError (Option Route) :=
  match rows.get? id with
  | some row => if row.valid then (row.read id).map some else .ok none
  | none => .ok none

/-- The valid route of an id. -/
def find (s : RouteStore) (id : String) : Except StoreError (Option Route) := do
  lookup (← s.rows) id

/-- Adds a route at version 0, unless there is a row of its id. -/
def insert (s : RouteStore) (r : Route) (now : Int) : Except StoreError Route × RouteStore :=
  match s.rows with
  | .error e => (.error e, s)
  | .ok rows =>
    if rows.contains r.id then (.error (.duplicate r.id), s)
    else
      let rows := rows.insert r.id (.ofRoute r now)
      let stored := match lookup rows r.id with
        | .ok (some stored) => .ok stored
        | .ok none => .error (.task s!"route {r.id} vanished after insert")
        | .error e => .error e
      (stored, ⟨some rows⟩)

/-- Changes the valid row with the id and the version of `r`, if there is one. -/
def update (s : RouteStore) (r : Route) (now : Int) :
    Except StoreError (Option Route) × RouteStore :=
  match s.rows with
  | .error e => (.error e, s)
  | .ok rows =>
    match rows.get? r.id with
    | none => (.ok none, s)
    | some old =>
      if old.valid ∧ old.version = r.version.toInt then
        let rows := rows.insert r.id (old.updated r now)
        (lookup rows r.id, ⟨some rows⟩)
      else (.ok none, s)

/-- Deletes the row of an id, valid or not; tells whether there was one. -/
def delete (s : RouteStore) (id : String) : Except StoreError Bool × RouteStore :=
  match s.rows with
  | .error e => (.error e, s)
  | .ok rows =>
    if rows.contains id then (.ok true, ⟨some (rows.erase id)⟩) else (.ok false, s)

/-- Adds a row as it is, unless there is one of its id. -/
def insertRow (s : RouteStore) (id : String) (row : Row) : RouteStore :=
  match s.table with
  | some rows => if rows.contains id then s else ⟨some (rows.insert id row)⟩
  | none => s

end RouteStore
end EdgeGateway

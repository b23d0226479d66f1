import EdgeGateway.Error
import EdgeGateway.Route.Event
import EdgeGateway.Route.Table

/-!
# A node's table

A node holds the active table and shows every new one to its watchers. Changes come as events in
any order: an older version never replaces a newer one, and an update of a route that the node does
not hold is dropped. A reload replaces the whole table by what the store lists; its two halves, the
reading of the store and the installation, have the node's apply lock between them.
-/

namespace EdgeGateway

/-- A node of the cluster: its table, the table its watchers see, how many tables it installed,
and the listing of a reload that has read the store and not yet installed it. -/
structure Node where
  table : RouteTable
  watched : RouteTable
  installs : Nat
  listing : Option (Except StoreError (List Route))

namespace Node

/-- A node that has loaded nothing. -/
def initial : Node := ⟨.empty, .empty, 0, none⟩

instance : Inhabited Node := ⟨initial⟩

/-- Replaces the table, for the watchers too. -/
def install (n : Node) (t : RouteTable) : Node :=
  { n with table := t, watched := t, installs := n.installs + 1 }

/-- Whether a route that an event carries goes into the table. -/
def accepts (n : Node) (mustExist : Bool) (r : Route) : Bool :=
  match n.table.get? r.id with
  | some old => !decide (r.version < old.version)
  | none => !mustExist

/-- Applies a change other than a reload. -/
def apply (n : Node) : Change → Node
  | .reload => n
  | .add r => if n.accepts false r then n.install (n.table.upsert r) else n
  | .update r => if n.accepts true r then n.install (n.table.upsert r) else n
  | .delete id => if n.table.contains id then n.install (n.table.erase id) else n

/-- Takes the apply lock and what the store lists. -/
def beginReload (n : Node) (listing : Except StoreError (List Route)) : Node :=
  { n with listing := some listing }

/-- Installs what the store listed, unless that failed or was nothing; the answer is the number of
routes. -/
def endReload (n : Node) : Except GatewayError Nat × Node :=
  let idle := { n with listing := none }
  match n.listing with
  | none => (.error .noRoutes, n)
  | some (.error e) => (.error (.store e), idle)
  | some (.ok []) => (.error .noRoutes, idle)
  | some (.ok (r :: rs)) =>
    let t := RouteTable.ofRoutes (r :: rs)
    (.ok t.size, idle.install t)

/-- Reloads in one go. -/
def reload (n : Node) (listing : Except StoreError (List Route)) :
    Except GatewayError Nat × Node :=
  (n.beginReload listing).endReload

end Node
end EdgeGateway

import Mathlib.Tactic.SplitIfs
import EdgeGateway.Cluster.Node
import EdgeGateway.Proofs.Route.Table

/-! # What a node does with an event, id by id

Under each id a table holds a route or nothing, and an event changes this entry by a function of the
entry alone (`get?_apply`). The table stays canonical and the watchers see the same one (`Sound`),
whatever a node applies or reloads. -/

namespace EdgeGateway

/-- What a table that has `v` under an id has there when it was offered the route `r`: a newer route
stays, and with `mustExist` so does the absence of a route. -/
def Route.offer (mustExist : Bool) (id : String) (r : Route) : Option Route → Option Route
  | none => if r.id = id ∧ mustExist = false then some r else none
  | some t => if r.id = id ∧ ¬ r.version < t.version then some r else some t

theorem Route.offer_none (id : String) (r : Route) : r.offer true id none = none :=
  if_neg (by simp)

/-- Where there is a route, it stays as the newer one or gives way to one that is not older. -/
theorem Route.offer_some (mustExist : Bool) (id : String) (r t : Route) :
    (r.offer mustExist id (some t) = some t ∧ (r.id = id → r.version < t.version)) ∨
    (r.id = id ∧ ¬ r.version < t.version ∧ r.offer mustExist id (some t) = some r) := by
  by_cases h : r.id = id ∧ ¬ r.version < t.version
  · exact Or.inr ⟨h.1, h.2, if_pos h⟩
  · refine Or.inl ⟨if_neg h, fun hid => ?_⟩
    by_contra hv
    exact h ⟨hid, hv⟩

theorem Route.offer_eq_or (mustExist : Bool) (id : String) (r : Route) (v : Option Route) :
    r.offer mustExist id v = v ∨ (r.id = id ∧ r.offer mustExist id v = some r) := by
  cases v with
  | none =>
    by_cases h : r.id = id ∧ mustExist = false
    · exact Or.inr ⟨h.1, if_pos h⟩
    · exact Or.inl (if_neg h)
  | some t =>
    rcases r.offer_some mustExist id t with ⟨h, -⟩ | ⟨hid, -, h⟩
    · exact Or.inl h
    · exact Or.inr ⟨hid, h⟩

theorem Route.offer_of_ne {id : String} {r : Route} (h : r.id ≠ id) (mustExist : Bool)
    (v : Option Route) : r.offer mustExist id v = v := by
  rcases r.offer_eq_or mustExist id v with hv | ⟨hid, -⟩
  · exact hv
  · exact absurd hid h

namespace Change

/-- What the routes have under an id after the change, if they had `v`. -/
def after (id : String) : Change → Option Route → Option Route
  | .reload, v => v
  | .add r, v => if r.id = id then some r else v
  | .update r, v => if r.id = id then some r else v
  | .delete id', v => if id' = id then none else v

/-- What a table that has `v` under an id has there when it has applied the change. -/
def merge (id : String) : Change → Option Route → Option Route
  | .reload, v => v
  | .add r, v => r.offer false id v
  | .update r, v => r.offer true id v
  | .delete id', v => if id' = id then none else v

/-- A table that applies a change keeps its entry, or gets what the change leaves there, whatever
was there before. -/
theorem merge_eq_or (id : String) (c : Change) (v w : Option Route) :
    c.merge id v = v ∨ c.merge id v = c.after id w := by
  cases c with
  | reload => exact Or.inl rfl
  | add r =>
    rcases r.offer_eq_or false id v with hv | ⟨hid, hv⟩
    · exact Or.inl hv
    · right
      rw [merge, after, hv, if_pos hid]
  | update r =>
    rcases r.offer_eq_or true id v with hv | ⟨hid, hv⟩
    · exact Or.inl hv
    · right
      rw [merge, after, hv, if_pos hid]
  | delete id' =>
    by_cases h : id' = id
    · right
      rw [merge, after, if_pos h, if_pos h]
    · left
      rw [merge, if_neg h]

end Change

namespace Node

/-- The table is canonical, and the watchers see it. -/
structure Sound (n : Node) : Prop where
  canonical : n.table.Canonical
  watched : n.watched = n.table

variable {n : Node}

/-! ### Events -/

theorem get?_accept (n : Node) (mustExist : Bool) (r : Route) (id : String) :
    (if n.accepts mustExist r then n.install (n.table.upsert r) else n).table.get? id =
      r.offer mustExist id (n.table.get? id) := by
  by_cases hid : r.id = id
  · subst hid
    have hu : (n.install (n.table.upsert r)).table.get? r.id = some r := by
      show (n.table.upsert r).get? r.id = some r
      rw [RouteTable.get?_upsert, if_pos rfl]
    unfold accepts
    match hg : n.table.get? r.id with
    | none => cases mustExist <;> simp [hg, hu, Route.offer]
    | some t => by_cases hv : r.version < t.version <;> simp [hg, hu, hv, Route.offer]
  · rw [Route.offer_of_ne hid]
    split_ifs
    · show (n.table.upsert r).get? id = _
      rw [RouteTable.get?_upsert, if_neg fun h => hid h.symm]
    · rfl

/-- **An event changes each entry of the table by itself.** -/
theorem get?_apply (n : Node) (c : Change) (id : String) :
    (n.apply c).table.get? id = c.merge id (n.table.get? id) := by
  cases c with
  | reload => rfl
  | add r => exact n.get?_accept false r id
  | update r => exact n.get?_accept true r id
  | delete id' =>
    show (if n.table.contains id' then n.install (n.table.erase id') else n).table.get? id =
      if id' = id then none else n.table.get? id
    split_ifs with hc hid hid
    · show (n.table.erase id').get? id = none
      rw [RouteTable.get?_erase, if_pos hid.symm]
    · show (n.table.erase id').get? id = n.table.get? id
      rw [RouteTable.get?_erase, if_neg fun h => hid h.symm]
    · rw [Bool.not_eq_true, RouteTable.contains_eq_false_iff] at hc
      rw [← hid, hc]
    · rfl

/-- An event leaves the node as it is, or has it install a canonical table. -/
theorem apply_cases (n : Node) (c : Change) :
    n.apply c = n ∨ ∃ t : RouteTable, t.Canonical ∧ n.apply c = n.install t := by
  cases c with
  | reload => exact Or.inl rfl
  | add r =>
    by_cases h : n.accepts false r = true
    · exact Or.inr ⟨_, RouteTable.canonical_upsert n.table r, if_pos h⟩
    · exact Or.inl (if_neg h)
  | update r =>
    by_cases h : n.accepts true r = true
    · exact Or.inr ⟨_, RouteTable.canonical_upsert n.table r, if_pos h⟩
    · exact Or.inl (if_neg h)
  | delete id =>
    by_cases h : n.table.contains id = true
    · exact Or.inr ⟨_, RouteTable.canonical_erase n.table id, if_pos h⟩
    · exact Or.inl (if_neg h)

theorem canonical_apply (h : n.table.Canonical) (c : Change) : (n.apply c).table.Canonical := by
  rcases n.apply_cases c with hn | ⟨t, ht, hn⟩
  · rw [hn]
    exact h
  · rw [hn]
    exact ht

theorem Sound.apply (h : n.Sound) (c : Change) : (n.apply c).Sound := by
  refine ⟨canonical_apply h.canonical c, ?_⟩
  rcases n.apply_cases c with hn | ⟨t, -, hn⟩
  · rw [hn]
    exact h.watched
  · rw [hn]
    rfl

theorem listing_apply (n : Node) (c : Change) : (n.apply c).listing = n.listing := by
  rcases n.apply_cases c with hn | ⟨t, -, hn⟩
  · rw [hn]
  · rw [hn]
    rfl

/-! ### Reloads -/

theorem Sound.beginReload (h : n.Sound) (l : Except StoreError (List Route)) :
    (n.beginReload l).Sound := ⟨h.canonical, h.watched⟩

/-- **The end of a reload** leaves the table as it is or installs what the store listed. -/
theorem endReload_cases (n : Node) :
    n.endReload.2.listing = none ∧
      ((n.endReload.2.table = n.table ∧ n.endReload.2.watched = n.watched) ∨
      ∃ rs, n.listing = some (.ok rs) ∧ n.endReload.2.table = .ofRoutes rs ∧
        n.endReload.2.watched = .ofRoutes rs) := by
  unfold endReload
  match h : n.listing with
  | none => exact ⟨h, Or.inl ⟨rfl, rfl⟩⟩
  | some (.error e) => exact ⟨rfl, Or.inl ⟨rfl, rfl⟩⟩
  | some (.ok []) => exact ⟨rfl, Or.inl ⟨rfl, rfl⟩⟩
  | some (.ok (r :: rs)) => exact ⟨rfl, Or.inr ⟨_, rfl, rfl, rfl⟩⟩

theorem canonical_endReload (h : n.table.Canonical) : n.endReload.2.table.Canonical := by
  obtain ⟨-, ⟨ht, -⟩ | ⟨rs, -, ht, -⟩⟩ := n.endReload_cases
  · exact ht ▸ h
  · exact ht ▸ RouteTable.canonical_ofRoutes rs

theorem Sound.endReload (h : n.Sound) : n.endReload.2.Sound := by
  refine ⟨canonical_endReload h.canonical, ?_⟩
  obtain ⟨-, ⟨ht, hw⟩ | ⟨rs, -, ht, hw⟩⟩ := n.endReload_cases
  · rw [ht, hw, h.watched]
  · rw [ht, hw]

/-! ### The tables that a node has or is about to have -/

/-- The table of a node, and the one that its reload is about to install. -/
def tables (n : Node) : List RouteTable :=
  match n.listing with
  | some (.ok rs) => [n.table, .ofRoutes rs]
  | _ => [n.table]

theorem table_mem_tables (n : Node) : n.table ∈ n.tables := by
  unfold tables
  split <;> exact List.mem_cons_self

theorem tables_of_idle (h : n.listing = none) : n.tables = [n.table] := by
  unfold tables
  rw [h]

theorem mem_tables_beginReload {l : Except StoreError (List Route)} {t : RouteTable}
    (h : t ∈ (n.beginReload l).tables) : t = n.table ∨ ∃ rs, l = .ok rs ∧ t = .ofRoutes rs := by
  match l, h with
  | .error e, h => exact Or.inl (List.mem_singleton.mp h)
  | .ok rs, h =>
    rcases List.mem_cons.mp h with rfl | h
    · exact Or.inl rfl
    · exact Or.inr ⟨rs, rfl, List.mem_singleton.mp h⟩

theorem mem_tables_endReload {t : RouteTable} (h : t ∈ n.endReload.2.tables) : t ∈ n.tables := by
  obtain ⟨hidle, hcase⟩ := n.endReload_cases
  rw [tables_of_idle hidle, List.mem_singleton] at h
  rcases hcase with ⟨htab, -⟩ | ⟨rs, hlist, htab, -⟩
  · rw [h, htab]
    exact n.table_mem_tables
  · rw [h, htab]
    unfold tables
    rw [hlist]
    exact List.mem_cons_of_mem _ List.mem_cons_self

end Node
end EdgeGateway

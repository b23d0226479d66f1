import EdgeGateway.Route.Table
import EdgeGateway.Proofs.KeyMap

/-! # Route tables by their look-ups

The list in match order is computed from the map, so a table that was built by the operations is
*canonical*: it is the table of its own map. Canonical tables with the same look-ups are equal
(`ext_get?`), whatever history built them. -/

namespace EdgeGateway.RouteTable

/-- The list of the table is the one its map gives. -/
def Canonical (t : RouteTable) : Prop := t = ofMap t.routes

theorem canonical_ofMap (m : KeyMap Route) : (ofMap m).Canonical := rfl

theorem canonical_empty : empty.Canonical := by
  unfold Canonical ofMap
  rw [show empty.routes.values = [] from rfl, List.mergeSort_nil]
  rfl

theorem canonical_upsert (t : RouteTable) (r : Route) : (t.upsert r).Canonical :=
  canonical_ofMap _

theorem canonical_erase (t : RouteTable) (id : String) : (t.erase id).Canonical :=
  canonical_ofMap _

theorem canonical_ofRoutes (rs : List Route) : (ofRoutes rs).Canonical := canonical_ofMap _

/-- **A canonical table is determined by its look-ups.** -/
theorem ext_get? {t u : RouteTable} (ht : t.Canonical) (hu : u.Canonical)
    (h : ∀ id, t.get? id = u.get? id) : t = u := by
  have hr : t.routes = u.routes := KeyMap.ext_get? h
  rw [ht, hu, hr]

/-! ### Look-up after a change -/

theorem get?_upsert (t : RouteTable) (r : Route) (id : String) :
    (t.upsert r).get? id = if id = r.id then some r else t.get? id :=
  KeyMap.get?_insert _ _ _ _

theorem get?_erase (t : RouteTable) (id id' : String) :
    (t.erase id).get? id' = if id' = id then none else t.get? id' :=
  KeyMap.get?_erase _ _ _

theorem contains_eq_false_iff (t : RouteTable) (id : String) :
    t.contains id = false ↔ t.get? id = none := by
  unfold contains KeyMap.contains get?
  exact Option.isSome_eq_false_iff.trans Option.isNone_iff_eq_none

theorem get?_ofRoutes {rs : List Route} (h : (rs.map Route.id).Nodup) (id : String) (r : Route) :
    (ofRoutes rs).get? id = some r ↔ r ∈ rs ∧ r.id = id := by
  have hk : ((rs.map fun r => (r.id, r)).map Prod.fst).Nodup := by rw [List.map_map]; exact h
  unfold get? ofRoutes ofMap
  rw [KeyMap.get?_ofList hk]
  simp only [List.mem_map, Prod.mk.injEq]
  constructor
  · rintro ⟨s, hs, rfl, rfl⟩
    exact ⟨hs, rfl⟩
  · rintro ⟨hr, rfl⟩
    exact ⟨r, hr, rfl, rfl⟩

end EdgeGateway.RouteTable

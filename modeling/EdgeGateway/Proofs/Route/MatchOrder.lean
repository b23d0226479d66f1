import EdgeGateway.Proofs.Route.Table
import EdgeGateway.Proofs.Text.ByteOrder

/-! # Tables in match order

A table keeps its routes twice: in a map, by their ids, and in a list. Whatever operations have
built it, the two agree (`Built.agrees`): a route is kept under its own id, the list holds each kept
route once and nothing else, and it increases in match order, so that it does not depend on the
order in which the map gives its values. Hence the first route of the list that accepts a path is
the least that does (`Built.find?_eq_some_iff`), and tables with the same look-ups are the same table. -/

namespace EdgeGateway

namespace Route

/-! ### The match order -/

/-- The match order: by `order`, then by the bytes of the id. -/
def Precedes (a b : Route) : Prop :=
  a.order < b.order ∨ a.order = b.order ∧ a.id.toUTF8.toList < b.id.toUTF8.toList

variable {a b c : Route}

theorem precedes_iff : a.Precedes b ↔ a.before b := by
  unfold Precedes before
  rw [Text.lt_iff_bytes]

theorem before_irrefl (a : Route) : ¬ a.before a := by
  rintro (h | ⟨-, h⟩)
  · exact Int32.lt_irrefl h
  · exact String.lt_irrefl a.id h

theorem before_trans (hab : a.before b) (hbc : b.before c) : a.before c := by
  rcases hab with hab | ⟨hab, hid⟩
  · rcases hbc with hbc | ⟨hbc, -⟩
    · exact Or.inl (Int32.lt_trans hab hbc)
    · exact Or.inl (hbc ▸ hab)
  · rcases hbc with hbc | ⟨hbc, hid'⟩
    · exact Or.inl (hab ▸ hbc)
    · exact Or.inr ⟨hab.trans hbc, String.lt_trans hid hid'⟩

theorem before_asymm (h : a.before b) : ¬ b.before a :=
  fun h' => before_irrefl a (before_trans h h')

/-- Routes that stand in no order to each other have the same place. -/
theorem not_before_iff : ¬ b.before a ↔ a.before b ∨ a.order = b.order ∧ a.id = b.id := by
  constructor
  · intro h
    by_cases ho : a.order < b.order
    · exact Or.inl (Or.inl ho)
    have heq : a.order = b.order := by
      rw [← Int32.toInt_inj]
      have hle : ¬ b.order < a.order := fun hlt => h (Or.inl hlt)
      rw [Int32.lt_iff_toInt_lt] at ho hle
      omega
    by_cases hid : a.id = b.id
    · exact Or.inr ⟨heq, hid⟩
    · have hn : ¬ b.id < a.id := fun hlt => h (Or.inr ⟨heq.symm, hlt⟩)
      exact Or.inl (Or.inr ⟨heq, Std.lt_of_le_of_ne (String.not_lt.mp hn) hid⟩)
  · rintro (h | ⟨ho, hid⟩) h'
    · exact before_asymm h h'
    · rcases h' with h' | ⟨-, h'⟩
      · exact Int32.lt_irrefl (ho ▸ h')
      · exact String.lt_irrefl _ (hid ▸ h')

theorem not_before_trans (hab : ¬ b.before a) (hbc : ¬ c.before b) : ¬ c.before a := by
  rw [not_before_iff] at hab hbc ⊢
  rcases hab with hab | ⟨hab, hid⟩
  · rcases hbc with hbc | ⟨hbc, hid'⟩
    · exact Or.inl (before_trans hab hbc)
    · left
      unfold before at hab ⊢
      rwa [← hbc, ← hid']
  · rcases hbc with hbc | ⟨hbc, hid'⟩
    · left
      unfold before at hbc ⊢
      rwa [hab, hid]
    · exact Or.inr ⟨hab.trans hbc, hid.trans hid'⟩

/-! ### Lists in match order -/

/-- The routes in match order. -/
def sort (rs : List Route) : List Route := rs.mergeSort fun a b => !decide (b.before a)

theorem sort_perm (rs : List Route) : (sort rs).Perm rs := List.mergeSort_perm rs _

/-- Routes with distinct ids increase where they are sorted. -/
theorem pairwise_sort {rs : List Route} (h : (rs.map Route.id).Nodup) :
    (sort rs).Pairwise before := by
  have hle := @List.pairwise_mergeSort Route (fun a b => !decide (b.before a))
    (fun a b c hab hbc => by
      simp only [Bool.not_eq_true', decide_eq_false_iff_not] at hab hbc ⊢
      exact not_before_trans hab hbc)
    (fun a b => by
      simp only [Bool.or_eq_true, Bool.not_eq_true', decide_eq_false_iff_not]
      by_cases hab : b.before a
      · exact Or.inr (before_asymm hab)
      · exact Or.inl hab) rs
  have hid : (sort rs).Pairwise fun a b => a.id ≠ b.id :=
    List.pairwise_map.mp (((sort_perm rs).map Route.id).nodup_iff.mpr h)
  refine (hle.and hid).imp fun {a b} hab => ?_
  have hn : ¬ b.before a := by simpa using hab.1
  rcases not_before_iff.mp hn with h | ⟨-, h⟩
  · exact h
  · exact absurd h hab.2

/-- Increasing lists of the same routes are equal. -/
theorem eq_of_pairwise_before {rs rs' : List Route} (h : rs.Pairwise before)
    (h' : rs'.Pairwise before) (hm : ∀ r, r ∈ rs ↔ r ∈ rs') : rs = rs' := by
  have hirr : Std.Irrefl before := ⟨before_irrefl⟩
  have hanti : Std.Antisymm before := ⟨fun _ _ hab hba => absurd hba (before_asymm hab)⟩
  exact h.eq_of_mem_iff h' hm

/-- What is found first in an increasing list is the least that is to be found. -/
theorem find?_eq_some_iff_of_pairwise {rs : List Route} (h : rs.Pairwise before) (p : Route → Bool)
    (r : Route) : rs.find? p = some r ↔
      r ∈ rs ∧ p r = true ∧ ∀ s ∈ rs, p s = true → s = r ∨ r.before s := by
  induction rs with
  | nil => simp
  | cons x rs ih =>
    obtain ⟨hx, hrs⟩ := List.pairwise_cons.mp h
    by_cases hp : p x = true
    · rw [List.find?_cons_of_pos hp, Option.some.injEq]
      constructor
      · rintro rfl
        refine ⟨List.mem_cons_self, hp, fun s hs _ => ?_⟩
        rcases List.mem_cons.mp hs with rfl | hs
        · exact Or.inl rfl
        · exact Or.inr (hx s hs)
      · rintro ⟨hr, -, hleast⟩
        rcases List.mem_cons.mp hr with rfl | hr
        · rfl
        rcases hleast x List.mem_cons_self hp with hxr | hrx
        · exact hxr
        · exact absurd hrx (before_asymm (hx r hr))
    · rw [List.find?_cons_of_neg hp, ih hrs]
      constructor
      · rintro ⟨hr, hpr, hleast⟩
        refine ⟨List.mem_cons_of_mem _ hr, hpr, fun s hs hps => ?_⟩
        rcases List.mem_cons.mp hs with rfl | hs
        · exact absurd hps hp
        · exact hleast s hs hps
      · rintro ⟨hr, hpr, hleast⟩
        rcases List.mem_cons.mp hr with rfl | hr
        · exact absurd hpr hp
        · exact ⟨hr, hpr, fun s hs => hleast s (List.mem_cons_of_mem _ hs)⟩

end Route

namespace RouteTable

variable {t u : RouteTable}

/-! ### Tables that can be built -/

/-- The tables that the operations build. -/
inductive Built : RouteTable → Prop
  | empty : Built empty
  | ofRoutes (rs : List Route) : Built (ofRoutes rs)
  | upsert {t : RouteTable} (h : Built t) (r : Route) : Built (t.upsert r)
  | erase {t : RouteTable} (h : Built t) (id : String) : Built (t.erase id)

theorem Built.canonical (h : Built t) : t.Canonical := by
  cases h with
  | empty => exact canonical_empty
  | ofRoutes rs => exact canonical_ofRoutes rs
  | upsert h r => exact canonical_upsert _ r
  | erase h id => exact canonical_erase _ id

/-- Of the routes of an id in a list, the last one is kept. -/
theorem get?_ofRoutes_eq_find? (rs : List Route) (id : String) :
    (ofRoutes rs).get? id = rs.reverse.find? fun r => r.id == id := by
  have hl (rs : List Route) :
      (rs.map fun r => (r.id, r)).lookup id = rs.find? fun r => r.id == id := by
    induction rs with
    | nil => rfl
    | cons r rs ih =>
      rw [List.map_cons, KeyMap.lookup_cons_eq_ite, ih, List.find?_cons]
      by_cases h : id = r.id
      · simp [h]
      · rw [if_neg h, beq_eq_false_iff_ne.mpr (Ne.symm h)]
  unfold get? ofRoutes ofMap
  rw [KeyMap.get?_ofList_eq_lookup, ← List.map_reverse, hl]

/-- A route is kept under its own id. -/
theorem Built.own (h : Built t) {id : String} {r : Route} (hr : t.get? id = some r) :
    r.id = id := by
  induction h with
  | empty => cases hr
  | ofRoutes rs =>
    rw [get?_ofRoutes_eq_find?] at hr
    simpa using List.find?_some hr
  | upsert h s ih =>
    rw [get?_upsert] at hr
    split_ifs at hr with hid
    · obtain rfl := Option.some.inj hr
      exact hid.symm
    · exact ih hr
  | erase h id' ih =>
    rw [get?_erase] at hr
    split_ifs at hr with hid
    exact ih hr

theorem Built.mem_values_iff (h : Built t) {r : Route} :
    r ∈ t.routes.values ↔ t.get? r.id = some r := by
  rw [KeyMap.mem_values_iff]
  constructor
  · rintro ⟨id, hr⟩
    rw [h.own hr]
    exact hr
  · exact fun hr => ⟨r.id, hr⟩

theorem Built.nodup_ids (h : Built t) : (t.routes.values.map Route.id).Nodup := by
  have hk : t.routes.values.map Route.id = t.routes.entries.map Prod.fst := by
    unfold KeyMap.values
    rw [List.map_map]
    exact List.map_congr_left fun e he => h.own (t.routes.get?_eq_some_iff.mpr he)
  rw [hk]
  exact t.routes.nodup_keys

/-! ### The list of a table -/

theorem Built.ordered_eq (h : Built t) : t.ordered = Route.sort t.routes.values :=
  congrArg ordered h.canonical

theorem Built.mem_ordered_iff (h : Built t) {r : Route} :
    r ∈ t.ordered ↔ t.get? r.id = some r := by
  rw [h.ordered_eq, (Route.sort_perm _).mem_iff, h.mem_values_iff]

theorem Built.pairwise_ordered (h : Built t) : t.ordered.Pairwise Route.before := by
  rw [h.ordered_eq]
  exact Route.pairwise_sort h.nodup_ids

/-- The list does not depend on the order in which the values come. -/
theorem Built.sort_eq (h : Built t) {rs : List Route} (hrs : rs.Perm t.routes.values) :
    Route.sort rs = t.ordered := by
  have hn : (rs.map Route.id).Nodup := (hrs.map Route.id).nodup_iff.mpr h.nodup_ids
  refine Route.eq_of_pairwise_before (Route.pairwise_sort hn) h.pairwise_ordered fun r => ?_
  rw [(Route.sort_perm rs).mem_iff, hrs.mem_iff, h.mem_values_iff, h.mem_ordered_iff]

theorem Built.count_ordered (h : Built t) (r : Route) :
    t.ordered.count r = if t.get? r.id = some r then 1 else 0 := by
  have hn : t.ordered.Nodup := h.pairwise_ordered.imp fun {a b} hab => by
    rintro rfl
    exact Route.before_irrefl a hab
  split_ifs with hr
  · exact List.count_eq_one_of_mem hn (h.mem_ordered_iff.mpr hr)
  · exact List.count_eq_zero.mpr fun hm => hr (h.mem_ordered_iff.mp hm)

/-! ### Look-up by path -/

/-- The least route of the table, in match order, that accepts the path. -/
def First (t : RouteTable) (path : String) (r : Route) : Prop :=
  t.get? r.id = some r ∧ r.matchesPath path = true ∧
    ∀ s, t.get? s.id = some s → s.matchesPath path = true → s = r ∨ r.Precedes s

theorem Built.find?_eq_some_iff (h : Built t) (path : String) (r : Route) :
    t.find? path = some r ↔ t.First path r := by
  unfold find? First
  rw [Route.find?_eq_some_iff_of_pairwise h.pairwise_ordered]
  simp only [h.mem_ordered_iff, Route.precedes_iff]

theorem Built.find?_eq_none_iff (h : Built t) (path : String) :
    t.find? path = none ↔ ∀ id r, t.get? id = some r → r.matchesPath path = false := by
  unfold find?
  rw [List.find?_eq_none]
  constructor
  · intro hn id r hr
    have hown : t.get? r.id = some r := by rw [h.own hr]; exact hr
    exact Bool.not_eq_true _ ▸ hn r (h.mem_ordered_iff.mpr hown)
  · intro hn r hr
    rw [hn r.id r (h.mem_ordered_iff.mp hr)]
    decide

/-- What a look-up of the path comes to: the first route that accepts it, or that there is none. -/
def Finds (t : RouteTable) (path : String) : Option Route → Prop
  | some r => t.First path r
  | none => ∀ id r, t.get? id = some r → r.matchesPath path = false

theorem Built.finds (h : Built t) (path : String) : t.Finds path (t.find? path) := by
  match hf : t.find? path with
  | some r => exact (h.find?_eq_some_iff path r).mp hf
  | none => exact (h.find?_eq_none_iff path).mp hf

/-! ### What determines a table -/

theorem upsert_comm (t : RouteTable) {r s : Route} (hne : r.id ≠ s.id) :
    (t.upsert r).upsert s = (t.upsert s).upsert r := by
  refine ext_get? (canonical_upsert _ _) (canonical_upsert _ _) fun id => ?_
  rw [get?_upsert, get?_upsert, get?_upsert, get?_upsert]
  by_cases hs : id = s.id
  · rw [if_pos hs, if_neg (fun hr => hne (hr.symm.trans hs)), if_pos hs]
  · rw [if_neg hs, if_neg hs]

theorem ofRoutes_perm {rs rs' : List Route} (hn : (rs.map Route.id).Nodup) (hp : rs.Perm rs') :
    ofRoutes rs = ofRoutes rs' := by
  have hn' : (rs'.map Route.id).Nodup := (hp.map Route.id).nodup_iff.mp hn
  refine ext_get? (canonical_ofRoutes _) (canonical_ofRoutes _) fun id => Option.ext fun r => ?_
  rw [get?_ofRoutes hn, get?_ofRoutes hn', hp.mem_iff]

/-- The table of an increasing list has that list. -/
theorem ordered_ofRoutes {rs : List Route} (hn : (rs.map Route.id).Nodup)
    (h : rs.Pairwise Route.before) : (ofRoutes rs).ordered = rs := by
  have hb := Built.ofRoutes rs
  refine Route.eq_of_pairwise_before hb.pairwise_ordered h fun r => ?_
  rw [hb.mem_ordered_iff, get?_ofRoutes hn]
  exact and_iff_left rfl

/-- The map of a table and its list hold the same routes. -/
structure Agrees (t : RouteTable) : Prop where
  own : ∀ id r, t.get? id = some r → r.id = id
  once : ∀ r, t.ordered.count r = if t.get? r.id = some r then 1 else 0
  increasing : t.ordered.Pairwise Route.Precedes
  anyOrder : ∀ rs, rs.Perm t.routes.values → Route.sort rs = t.ordered

theorem Built.agrees (h : Built t) : t.Agrees where
  own _ _ := h.own
  once := h.count_ordered
  increasing := h.pairwise_ordered.imp Route.precedes_iff.mpr
  anyOrder _ := h.sort_eq

/-- **The map and the list of a table agree**, whatever operations have built it: so the route that
is found for a path is the least one that accepts it, there is none only if no route accepts it, and
tables with the same routes are the same, in whatever order those have come; where routes of one id
are listed, the last one is kept. -/
theorem map_and_list_agree (ht : Built t) (hu : Built u) :
    t.Agrees ∧ (∀ path r, t.find? path = some r ↔ t.First path r) ∧
    (∀ path, t.find? path = none ↔ ∀ id r, t.get? id = some r → r.matchesPath path = false) ∧
    ((∀ id, t.get? id = u.get? id) → t = u) ∧
    (∀ r s, r.id ≠ s.id → (t.upsert r).upsert s = (t.upsert s).upsert r) ∧
    (∀ rs rs', (rs.map Route.id).Nodup → rs.Perm rs' → ofRoutes rs = ofRoutes rs') ∧
    ∀ rs id, (ofRoutes rs).get? id = rs.reverse.find? fun r => r.id == id :=
  ⟨ht.agrees, ht.find?_eq_some_iff, ht.find?_eq_none_iff, ext_get? ht.canonical hu.canonical,
    fun _ _ => t.upsert_comm, fun _ _ => ofRoutes_perm, get?_ofRoutes_eq_find?⟩

/-- Two histories of one table: routes put in one by one, and a list in which an id is repeated and
from which a route is taken away again. -/
theorem map_and_list_agree_histories :
    let path := (Rule.named "Path").withArg "_genkey_0" "/x/**"
    let a : Route := { Route.simple "a" "lb://a" with predicates := [path], order := 1 }
    let b : Route := { Route.simple "b" "lb://b" with predicates := [path] }
    let ä : Route := { Route.simple "ä" "lb://c" with predicates := [path] }
    let t := ((empty.upsert a).upsert ä).upsert b
    let u := (ofRoutes [b, Route.simple "d" "lb://d", { a with order := 0 }, ä, a]).erase "d"
    Built t ∧ Built u ∧ t = u ∧ t.First "/x/1" b ∧ t.find? "/x/1" = some b ∧
      t.ordered.count ä = 1 := by
  intro path a b ä t u
  have ht : Built t := ((Built.empty.upsert a).upsert ä).upsert b
  have hu : Built u := (Built.ofRoutes _).erase "d"
  obtain ⟨hagree, hfind, -, heq, -⟩ := map_and_list_agree ht hu
  have hroutes : t.routes = u.routes := by decide +kernel
  have hfirst : t.First "/x/1" b := by
    refine ⟨by decide +kernel, by decide +kernel, fun s hs _ => ?_⟩
    simp only [t, get?_upsert, Route.precedes_iff] at hs ⊢
    split_ifs at hs
    · exact Or.inl (Option.some.inj hs).symm
    · obtain rfl := Option.some.inj hs
      exact Or.inr (by decide)
    · obtain rfl := Option.some.inj hs
      exact Or.inr (by decide)
    · cases hs
  refine ⟨ht, hu, heq fun id => by unfold get?; rw [hroutes], hfirst, (hfind _ b).mpr hfirst, ?_⟩
  rw [hagree.once]
  decide +kernel

end RouteTable
end EdgeGateway

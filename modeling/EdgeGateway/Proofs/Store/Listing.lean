import EdgeGateway.Proofs.Route.MatchOrder
import EdgeGateway.Proofs.Store.Row
import EdgeGateway.Store.Basic

/-! # What the store lists

A listing holds exactly what the store shows id by id: where the store can be listed, the table of
the listing and the store agree on every id (`find_eq_of_list`), and the store can be listed as soon
as each of its valid rows can be read (`exists_list`). -/

namespace EdgeGateway

open Store

/-! ### Lists that are decoded item by item -/

section Decoding

variable {α β ε : Type} {f : α → Except ε β}

theorem mapM_cons_ok {a : α} {as : List α} {bs : List β} :
    (a :: as).mapM f = .ok bs ↔ ∃ b bs', f a = .ok b ∧ as.mapM f = .ok bs' ∧ bs = b :: bs' := by
  rw [List.mapM_cons]
  match f a, as.mapM f with
  | .error _, _ =>
    refine ⟨fun h => ?_, fun ⟨b, bs', h, _⟩ => ?_⟩
    · cases h
    · cases h
  | .ok b, .error _ =>
    refine ⟨fun h => ?_, fun ⟨_, _, _, h, _⟩ => ?_⟩
    · cases h
    · cases h
  | .ok b, .ok bs' =>
    refine ⟨fun h => ?_, fun ⟨_, _, hb, hbs, h⟩ => ?_⟩
    · cases h
      exact ⟨b, bs', rfl, rfl, rfl⟩
    · cases hb
      cases hbs
      rw [h]
      rfl

theorem mem_of_mapM {as : List α} {bs : List β} (h : as.mapM f = .ok bs) (b : β) :
    b ∈ bs ↔ ∃ a ∈ as, f a = .ok b := by
  induction as generalizing bs with
  | nil =>
    cases h
    simp
  | cons a as ih =>
    obtain ⟨b', bs', hb, hbs, rfl⟩ := mapM_cons_ok.mp h
    rw [List.mem_cons, ih hbs]
    constructor
    · rintro (rfl | ⟨a', ha', hf⟩)
      · exact ⟨a, by simp, hb⟩
      · exact ⟨a', by simp [ha'], hf⟩
    · rintro ⟨a', ha', hf⟩
      rcases List.mem_cons.mp ha' with rfl | ha'
      · rw [hb] at hf
        cases hf
        exact Or.inl rfl
      · exact Or.inr ⟨a', ha', hf⟩

theorem map_of_mapM {γ : Type} {g : β → γ} {k : α → γ} (hg : ∀ a b, f a = .ok b → g b = k a)
    {as : List α} {bs : List β} (h : as.mapM f = .ok bs) : bs.map g = as.map k := by
  induction as generalizing bs with
  | nil =>
    cases h
    rfl
  | cons a as ih =>
    obtain ⟨b, bs', hb, hbs, rfl⟩ := mapM_cons_ok.mp h
    rw [List.map_cons, List.map_cons, hg a b hb, ih hbs]

theorem exists_of_mapM {as : List α} {bs : List β} (h : as.mapM f = .ok bs) :
    ∀ a ∈ as, ∃ b, f a = .ok b := by
  induction as generalizing bs with
  | nil => simp
  | cons a as ih =>
    obtain ⟨b, bs', hb, hbs, -⟩ := mapM_cons_ok.mp h
    intro a' ha'
    rcases List.mem_cons.mp ha' with rfl | ha'
    · exact ⟨b, hb⟩
    · exact ih hbs a' ha'

theorem exists_mapM {as : List α} (h : ∀ a ∈ as, ∃ b, f a = .ok b) :
    ∃ bs, as.mapM f = .ok bs := by
  induction as with
  | nil => exact ⟨[], rfl⟩
  | cons a as ih =>
    obtain ⟨b, hb⟩ := h a (by simp)
    obtain ⟨bs, hbs⟩ := ih fun a' ha' => h a' (by simp [ha'])
    exact ⟨b :: bs, mapM_cons_ok.mpr ⟨b, bs, hb, hbs, rfl⟩⟩

theorem pairwise_of_mapM {R : α → α → Prop} {S : β → β → Prop}
    (hRS : ∀ a a' b b', f a = .ok b → f a' = .ok b' → R a a' → S b b') {as : List α} {bs : List β}
    (h : as.mapM f = .ok bs) (hp : as.Pairwise R) : bs.Pairwise S := by
  induction as generalizing bs with
  | nil =>
    cases h
    exact .nil
  | cons a as ih =>
    obtain ⟨b, bs', hb, hbs, rfl⟩ := mapM_cons_ok.mp h
    obtain ⟨ha, has⟩ := List.pairwise_cons.mp hp
    refine List.pairwise_cons.mpr ⟨fun b' hb' => ?_, ih hbs has⟩
    obtain ⟨a', ha', hf⟩ := (mem_of_mapM hbs b').mp hb'
    exact hRS a a' b b' hb hf (ha a' ha')

theorem mapM_congr_of_mem {g : α → Except ε β} {as : List α} (h : ∀ a ∈ as, f a = g a) :
    as.mapM f = as.mapM g := by
  induction as with
  | nil => rfl
  | cons a as ih =>
    rw [List.mapM_cons, List.mapM_cons, h a (by simp), ih fun a' ha' => h a' (by simp [ha'])]

end Decoding

namespace RouteStore

variable {s : RouteStore} {rows : KeyMap Row} {rs : List Route}

/-! ### The rows that a listing goes through -/

theorem mem_visible (rows : KeyMap Row) (id : String) (row : Row) :
    (id, row) ∈ visible rows ↔ rows.get? id = some row ∧ row.valid = true := by
  rw [visible, List.mem_mergeSort, List.mem_filter, KeyMap.get?_eq_some_iff]

theorem nodup_visible (rows : KeyMap Row) : ((visible rows).map Prod.fst).Nodup := by
  have hp := (List.mergeSort_perm (rows.entries.filter fun e => e.2.valid) listedBefore).map
    Prod.fst
  exact hp.nodup_iff.mpr (rows.nodup_keys.sublist (List.filter_sublist.map Prod.fst))

/-- A listing reads every valid row. -/
theorem list_eq_ok_iff (rows : KeyMap Row) (rs : List Route) : list ⟨some rows⟩ = .ok rs ↔
    (visible rows).mapM (fun e => e.2.read e.1) = .ok rs := by
  show (if (visible rows).all (fun e => e.2.fits) then (visible rows).mapM fun e => e.2.toRoute e.1
    else Except.error _) = .ok rs ↔ _
  by_cases h : ∀ e ∈ visible rows, e.2.fits = true
  · rw [if_pos (List.all_eq_true.mpr h),
      mapM_congr_of_mem fun e he => (Row.read_of_fits (h e he) e.1).symm]
  · rw [if_neg (fun ha => h (List.all_eq_true.mp ha))]
    constructor
    · intro he
      cases he
    · intro he
      refine absurd (fun e hm => ?_) h
      obtain ⟨r, hr⟩ := exists_of_mapM he e hm
      exact Row.fits_of_read hr

theorem ids_of_list (h : list ⟨some rows⟩ = .ok rs) :
    rs.map Route.id = (visible rows).map Prod.fst :=
  map_of_mapM (fun _ _ hr => (Row.props_of_read hr).1) ((list_eq_ok_iff rows rs).mp h)

theorem mem_of_list (h : list ⟨some rows⟩ = .ok rs) (r : Route) :
    r ∈ rs ↔ ∃ row, rows.get? r.id = some row ∧ row.valid = true ∧ row.read r.id = .ok r := by
  rw [mem_of_mapM ((list_eq_ok_iff rows rs).mp h)]
  constructor
  · rintro ⟨⟨id, row⟩, hm, hr⟩
    obtain ⟨rfl, -⟩ := Row.props_of_read hr
    obtain ⟨hg, hv⟩ := (mem_visible rows r.id row).mp hm
    exact ⟨row, hg, hv, hr⟩
  · rintro ⟨row, hg, hv, hr⟩
    exact ⟨(r.id, row), (mem_visible rows r.id row).mpr ⟨hg, hv⟩, hr⟩

theorem listedBefore_iff (a b : String × Row) : listedBefore a b = true ↔
    a.2.order < b.2.order ∨ a.2.order = b.2.order ∧ a.1 ≤ b.1 := by
  unfold listedBefore
  rw [Bool.or_eq_true, Bool.and_eq_true, decide_eq_true_eq, beq_iff_eq, decide_eq_true_eq]

/-- The rows of a listing come by their order, then by their ids. -/
theorem pairwise_visible (rows : KeyMap Row) : (visible rows).Pairwise fun a b =>
    a.2.order < b.2.order ∨ a.2.order = b.2.order ∧ a.1 < b.1 := by
  have hle := @List.pairwise_mergeSort (String × Row) listedBefore
    (fun a b c hab hbc => by
      rw [listedBefore_iff] at hab hbc ⊢
      rcases hab with hab | ⟨hab, hid⟩
      · exact Or.inl (by omega)
      · rcases hbc with hbc | ⟨hbc, hid'⟩
        · exact Or.inl (by omega)
        · exact Or.inr ⟨hab.trans hbc, String.le_trans hid hid'⟩)
    (fun a b => by
      rw [Bool.or_eq_true, listedBefore_iff, listedBefore_iff]
      rcases Int.lt_trichotomy a.2.order b.2.order with ho | ho | ho
      · exact Or.inl (Or.inl ho)
      · rcases String.le_total a.1 b.1 with hid | hid
        · exact Or.inl (Or.inr ⟨ho, hid⟩)
        · exact Or.inr (Or.inr ⟨ho.symm, hid⟩)
      · exact Or.inr (Or.inl ho)) (rows.entries.filter fun e => e.2.valid)
  have hne : (visible rows).Pairwise fun a b => a.1 ≠ b.1 :=
    List.pairwise_map.mp (nodup_visible rows)
  refine (hle.and hne).imp fun {a b} hab => ?_
  rcases (listedBefore_iff a b).mp hab.1 with h | ⟨ho, hid⟩
  · exact Or.inl h
  · exact Or.inr ⟨ho, Std.lt_of_le_of_ne hid hab.2⟩

theorem pairwise_of_list (h : s.list = .ok rs) : rs.Pairwise Route.before := by
  obtain ⟨_ | rows⟩ := s
  · cases h
  refine pairwise_of_mapM ?_ ((list_eq_ok_iff rows rs).mp h) (pairwise_visible rows)
  rintro ⟨id, row⟩ ⟨id', row'⟩ r r' hr hr' hlt
  obtain ⟨rfl, -⟩ := Row.props_of_read hr
  obtain ⟨rfl, -⟩ := Row.props_of_read hr'
  unfold Route.before
  rw [Int32.lt_iff_toInt_lt, ← Int32.toInt_inj, Row.order_of_read hr, Row.order_of_read hr']
  exact hlt

/-! ### The store id by id -/

/-- The row of an id. -/
def row? (s : RouteStore) (id : String) : Option Row := s.table.bind fun rows => rows.get? id

theorem find_eq_none_iff (rows : KeyMap Row) (id : String) : find ⟨some rows⟩ id = .ok none ↔
    ∀ row, rows.get? id = some row → row.valid = false := by
  show lookup rows id = .ok none ↔ _
  unfold lookup
  match rows.get? id with
  | none => simp
  | some row =>
    match hv : row.valid, hr : row.read id with
    | false, _ => simp [hv]
    | true, .ok r => simp [hv, hr, Except.map]
    | true, .error e => simp [hv, hr, Except.map]

theorem find_eq_some_iff (rows : KeyMap Row) (id : String) (r : Route) :
    find ⟨some rows⟩ id = .ok (some r) ↔
      ∃ row, rows.get? id = some row ∧ row.valid = true ∧ row.read id = .ok r := by
  show lookup rows id = .ok (some r) ↔ _
  unfold lookup
  match rows.get? id with
  | none => simp
  | some row =>
    match hv : row.valid, hr : row.read id with
    | false, _ => simp [hv]
    | true, .ok r => simp [hv, hr, Except.map]
    | true, .error e => simp [hv, hr, Except.map]

/-- **The table of a listing shows under every id what the store shows there.** -/
theorem find_eq_of_list (h : s.list = .ok rs) (id : String) :
    s.find id = .ok ((RouteTable.ofRoutes rs).get? id) := by
  obtain ⟨_ | rows⟩ := s
  · cases h
  have hn : (rs.map Route.id).Nodup := by
    rw [ids_of_list h]
    exact nodup_visible rows
  match ht : (RouteTable.ofRoutes rs).get? id with
  | some r =>
    obtain ⟨hr, rfl⟩ := (RouteTable.get?_ofRoutes hn id r).mp ht
    rw [find_eq_some_iff]
    exact (mem_of_list h r).mp hr
  | none =>
    rw [find_eq_none_iff]
    intro row hg
    by_contra hv
    rw [Bool.not_eq_false] at hv
    obtain ⟨r, hr⟩ := exists_of_mapM ((list_eq_ok_iff rows rs).mp h) (id, row)
      ((mem_visible rows id row).mpr ⟨hg, hv⟩)
    obtain ⟨rfl, -⟩ := Row.props_of_read hr
    have hm := (mem_of_list h r).mpr ⟨row, hg, hv, hr⟩
    rw [(RouteTable.get?_ofRoutes hn r.id r).mpr ⟨hm, rfl⟩] at ht
    cases ht

/-- The store can be listed if it shows something or nothing under each id. -/
theorem exists_list (h : ∀ id, ∃ v, s.find id = .ok v) : ∃ rs, s.list = .ok rs := by
  obtain ⟨_ | rows⟩ := s
  · obtain ⟨v, hv⟩ := h ""
    cases hv
  have hm : ∀ e ∈ visible rows, ∃ r, e.2.read e.1 = .ok r := by
    rintro ⟨id, row⟩ he
    obtain ⟨hg, hv⟩ := (mem_visible rows id row).mp he
    obtain ⟨v, hf⟩ := h id
    match v, hf with
    | none, hf =>
      rw [(find_eq_none_iff rows id).mp hf row hg] at hv
      cases hv
    | some r, hf =>
      obtain ⟨row', hg', -, hr⟩ := (find_eq_some_iff rows id r).mp hf
      rw [hg, Option.some.injEq] at hg'
      exact ⟨r, hg' ▸ hr⟩
  obtain ⟨rs, hrs⟩ := exists_mapM hm
  exact ⟨rs, (list_eq_ok_iff rows rs).mpr hrs⟩

end RouteStore
end EdgeGateway

import EdgeGateway.Proofs.Store.Listing

/-! # What a change of the store can do

One lemma per operation says all that it can do (`insert_cases`, `update_cases`, `delete_cases`):
either the store stays as it is, or the row of one id changes and every other row stays
(`OnlyAt`). A row that was inserted or updated is shown as it was returned, with one exception: an
update at the last version leaves a row that is spent, and returns a failure. -/

namespace EdgeGateway.RouteStore

open Store

variable {s s' : RouteStore}

/-- The row of an id is valid and its version has run past the last one. -/
def Spent (s : RouteStore) (id : String) : Prop :=
  ∃ row, s.row? id = some row ∧ row.valid = true ∧ row.Spent

/-- The second store has its table exactly if the first has, and the same rows apart from that of
one id. -/
structure OnlyAt (id : String) (s s' : RouteStore) : Prop where
  table : s'.table.isSome = s.table.isSome
  row : ∀ id', id' ≠ id → s'.row? id' = s.row? id'

theorem onlyAt_insert (rows : KeyMap Row) (id : String) (row : Row) :
    OnlyAt id ⟨some rows⟩ ⟨some (rows.insert id row)⟩ where
  table := rfl
  row id' h := by
    show (rows.insert id row).get? id' = rows.get? id'
    rw [KeyMap.get?_insert, if_neg h]

theorem onlyAt_erase (rows : KeyMap Row) (id : String) :
    OnlyAt id ⟨some rows⟩ ⟨some (rows.erase id)⟩ where
  table := rfl
  row id' h := by
    show (rows.erase id).get? id' = rows.get? id'
    rw [KeyMap.get?_erase, if_neg h]

theorem find_eq_of_row? (ht : s'.table.isSome = s.table.isSome) {id : String}
    (h : s'.row? id = s.row? id) : s'.find id = s.find id := by
  obtain ⟨_ | rows⟩ := s <;> obtain ⟨_ | rows'⟩ := s'
  · rfl
  · cases ht
  · cases ht
  · show lookup rows' id = lookup rows id
    have hr : rows'.get? id = rows.get? id := h
    unfold lookup
    rw [hr]

theorem OnlyAt.find {id id' : String} (h : OnlyAt id s s') (hne : id' ≠ id) :
    s'.find id' = s.find id' :=
  find_eq_of_row? h.table (h.row id' hne)

theorem OnlyAt.spent {id id' : String} (h : OnlyAt id s s') (hne : id' ≠ id) :
    s'.Spent id' ↔ s.Spent id' := by
  unfold Spent
  rw [h.row id' hne]

/-! ### What the store shows -/

/-- The store shows `v` under the id, or the row there is spent. -/
def Shows (s : RouteStore) (id : String) (v : Option Route) : Prop :=
  s.find id = .ok v ∨ s.Spent id

theorem not_spent_of_find {id : String} {v : Option Route} (h : s.find id = .ok v) :
    ¬ s.Spent id := by
  rintro ⟨row, hrow, hvalid, hs⟩
  obtain ⟨_ | rows⟩ := s
  · cases h
  have hg : rows.get? id = some row := hrow
  cases v with
  | none =>
    rw [(find_eq_none_iff rows id).mp h row hg] at hvalid
    cases hvalid
  | some r =>
    obtain ⟨row', hg', -, hr⟩ := (find_eq_some_iff rows id r).mp h
    rw [hg, Option.some.injEq] at hg'
    subst hg'
    have hf := (Row.fits_iff row).mp (Row.fits_of_read hr)
    unfold Row.Spent at hs
    omega

theorem OnlyAt.shows {id id' : String} {v : Option Route} (h : OnlyAt id s s') (hne : id' ≠ id)
    (hv : s.Shows id' v) : s'.Shows id' v := by
  rcases hv with hv | hv
  · exact Or.inl ((h.find hne).trans hv)
  · exact Or.inr ((h.spent hne).mpr hv)

theorem find_of_row?_eq_none {id : String} (ht : s.table.isSome = true) (h : s.row? id = none) :
    s.find id = .ok none := by
  obtain ⟨_ | rows⟩ := s
  · cases ht
  have hg : rows.get? id = none := h
  rw [find_eq_none_iff]
  intro row hrow
  rw [hg] at hrow
  cases hrow

/-- A valid row that is not spent is shown at its version, where anything can be shown. -/
theorem Shows.of_valid {id : String} {v : Option Route} {row : Row} (h : s.Shows id v)
    (hrow : s.row? id = some row) (hv : row.valid = true) (hs : ¬ row.Spent) :
    ∃ t : Route, v = some t ∧ t.version.toInt = row.version := by
  obtain ⟨_ | rows⟩ := s
  · cases hrow
  have hg : rows.get? id = some row := hrow
  rcases h with h | ⟨row', hrow', -, hs'⟩
  · cases v with
    | none =>
      rw [(find_eq_none_iff rows id).mp h row hg] at hv
      cases hv
    | some t =>
      obtain ⟨row', hg', -, hr⟩ := (find_eq_some_iff rows id t).mp h
      rw [hg, Option.some.injEq] at hg'
      subst hg'
      exact ⟨t, rfl, (Row.props_of_read hr).2⟩
  · rw [hrow, Option.some.injEq] at hrow'
    subst hrow'
    exact absurd hs' hs

/-! ### The operations -/

/-- **Insertion** fails and changes nothing, or shows the route at version 0 under an id that had no
row. -/
theorem insert_cases {r : Route} {now : Int} {res : Except StoreError Route}
    (h : s.insert r now = (res, s')) :
    (s' = s ∧ ∃ e, res = .error e) ∨
    ∃ stored : Route, res = .ok stored ∧
      stored = { r with
        createdAt := Instant.ofMillis? now, updatedAt := Instant.ofMillis? now, version := 0 } ∧
      s.table.isSome = true ∧ s.row? r.id = none ∧ s'.find r.id = .ok (some stored) ∧
      OnlyAt r.id s s' := by
  obtain ⟨_ | rows⟩ := s
  · cases h
    exact Or.inl ⟨rfl, _, rfl⟩
  simp only [insert, RouteStore.rows] at h
  split_ifs at h with hc
  · cases h
    exact Or.inl ⟨rfl, _, rfl⟩
  · have hn : rows.get? r.id = none := by
      rw [KeyMap.contains, Bool.not_eq_true, Option.isSome_eq_false_iff] at hc
      exact Option.isNone_iff_eq_none.mp hc
    have hg : (rows.insert r.id (.ofRoute r now)).get? r.id = some (.ofRoute r now) := by
      rw [KeyMap.get?_insert, if_pos rfl]
    have hl := (find_eq_some_iff (rows.insert r.id (.ofRoute r now)) r.id _).mpr
      ⟨_, hg, rfl, Row.read_ofRoute r r.id now⟩
    have hl' : lookup (rows.insert r.id (.ofRoute r now)) r.id = .ok (some _) := hl
    rw [hl'] at h
    cases h
    exact Or.inr ⟨_, rfl, rfl, rfl, hn, hl, onlyAt_insert rows r.id _⟩

theorem lookup_insert_of_spent (rows : KeyMap Row) (id : String) {row : Row}
    (hv : row.valid = true) (hs : row.Spent) :
    lookup (rows.insert id row) id = .error (.database "integer out of range") := by
  have hf : ¬ row.fits = true := by
    rw [Row.fits_iff]
    unfold Row.Spent at hs
    omega
  unfold lookup
  rw [KeyMap.get?_insert, if_pos rfl]
  simp only
  rw [if_pos hv, Row.read, if_neg hf]
  rfl

/-- **An update** finds no row and changes nothing, or shows the route at the version after its own,
or spends the row and fails. -/
theorem update_cases {r : Route} {now : Int} {res : Except StoreError (Option Route)}
    (h : s.update r now = (res, s')) :
    (s' = s ∧ (res = .ok none ∨ ∃ e, res = .error e)) ∨
    ∃ old, s.row? r.id = some old ∧ old.valid = true ∧ old.version = r.version.toInt ∧
      OnlyAt r.id s s' ∧
      ((∃ stored : Route, res = .ok (some stored) ∧
        stored = { r with
          createdAt := Instant.ofMillis? old.createTime, updatedAt := Instant.ofMillis? now,
          version := Int64.ofInt (r.version.toInt + 1) } ∧
        r.version.toInt + 1 < 2 ^ 63 ∧ s'.find r.id = .ok (some stored)) ∨
      ((∃ e, res = .error e) ∧ s'.Spent r.id ∧ r.version.toInt = 2 ^ 63 - 1)) := by
  obtain ⟨_ | rows⟩ := s
  · cases h
    exact Or.inl ⟨rfl, Or.inr ⟨_, rfl⟩⟩
  simp only [update, RouteStore.rows] at h
  match hg : rows.get? r.id, h with
  | none, h =>
    cases h
    exact Or.inl ⟨rfl, Or.inl rfl⟩
  | some old, h =>
    simp only at h
    split_ifs at h with hc
    · have hl : (rows.insert r.id (old.updated r now)).get? r.id = some (old.updated r now) := by
        rw [KeyMap.get?_insert, if_pos rfl]
      refine Or.inr ⟨old, hg, hc.1, hc.2, ?_, ?_⟩
      · cases h
        exact onlyAt_insert rows r.id _
      have hlow := r.version.le_toInt
      by_cases hv : r.version.toInt + 1 < 2 ^ 63
      · left
        have hr := Row.read_updated old r r.id now ⟨by omega, by omega⟩
        have hf := (find_eq_some_iff (rows.insert r.id (old.updated r now)) r.id _).mpr
          ⟨_, hl, hc.1, hr⟩
        have hf' : lookup (rows.insert r.id (old.updated r now)) r.id = .ok (some _) := hf
        rw [hf'] at h
        cases h
        exact ⟨_, rfl, by rw [hc.2], hv, hf⟩
      · right
        have hs : (old.updated r now).Spent := by
          show 0x7FFFFFFFFFFFFFFF < old.version + 1
          omega
        have hval : (old.updated r now).valid = true := hc.1
        rw [lookup_insert_of_spent rows r.id hval hs] at h
        cases h
        have hhigh := r.version.toInt_lt
        exact ⟨⟨_, rfl⟩, ⟨_, hl, hc.1, hs⟩, by omega⟩
    · cases h
      exact Or.inl ⟨rfl, Or.inl rfl⟩

/-- **Deletion** changes nothing, or leaves nothing under the id. -/
theorem delete_cases {id : String} {res : Except StoreError Bool} (h : s.delete id = (res, s')) :
    (s' = s ∧ res ≠ .ok true) ∨
    (res = .ok true ∧ s.table.isSome = true ∧ s'.row? id = none ∧ s'.find id = .ok none ∧
      OnlyAt id s s') := by
  obtain ⟨_ | rows⟩ := s
  · cases h
    exact Or.inl ⟨rfl, by simp⟩
  simp only [delete, RouteStore.rows] at h
  split_ifs at h with hc
  · cases h
    have hg : (rows.erase id).get? id = none := by rw [KeyMap.get?_erase, if_pos rfl]
    exact Or.inr ⟨rfl, rfl, hg, find_of_row?_eq_none rfl hg, onlyAt_erase rows id⟩
  · cases h
    exact Or.inl ⟨rfl, by simp⟩

end EdgeGateway.RouteStore

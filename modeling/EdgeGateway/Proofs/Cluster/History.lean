import EdgeGateway.Proofs.Cluster.Run
import EdgeGateway.Proofs.Store.Change

/-! # The history of one id

The changes that wait for a node lead, one by one, from what the store once had under an id to what
it has there now (`Leads`), and each of them fits what came before it (`Fits`). A node is somewhere
on this way: what its table has under the id is one of the states that the changes pass through
(`trail`). Taking the first change keeps it on the way (`mem_trail_merge`), whether or not the table
is ahead of that change, and at the end of the way there is only the state of the store. -/

namespace EdgeGateway

namespace Change

/-- The change can be made where the routes have `v` under the id: a route is added where there is
none, and updated where there is an older one. -/
def Fits (id : String) : Change → Option Route → Prop
  | .reload, _ => True
  | .add r, v => r.id = id → v = none
  | .update r, v => r.id = id → ∃ old, v = some old ∧ old.version < r.version
  | .delete _, _ => True

/-- A table that is where a change was made follows it. -/
theorem merge_eq_after {id : String} {c : Change} {v : Option Route} (h : c.Fits id v) :
    c.merge id v = c.after id v := by
  cases c with
  | reload => rfl
  | add r =>
    by_cases hid : r.id = id
    · rw [h hid, merge, after, Route.offer, if_pos ⟨hid, rfl⟩, if_pos hid]
    · rw [merge, after, Route.offer_of_ne hid, if_neg hid]
  | update r =>
    by_cases hid : r.id = id
    · obtain ⟨old, rfl, hv⟩ := h hid
      rw [merge, after, Route.offer, if_pos ⟨hid, Int64.lt_asymm hv⟩, if_pos hid]
    · rw [merge, after, Route.offer_of_ne hid, if_neg hid]
  | delete id' => rfl

end Change

namespace History

variable {id : String} {q : List Change} {c : Change} {u v w : Option Route}

/-- The changes fit one after the other, and lead from `v` to `w`. -/
def Leads (id : String) : List Change → Option Route → Option Route → Prop
  | [], v, w => v = w
  | c :: q, v, w => c.Fits id v ∧ Leads id q (c.after id v) w

/-- What the routes have under the id before, between and after the changes. -/
def trail (id : String) : List Change → Option Route → List (Option Route)
  | [], v => [v]
  | c :: q, v => v :: trail id q (c.after id v)

theorem mem_trail_start (id : String) (q : List Change) (v : Option Route) : v ∈ trail id q v := by
  cases q with
  | nil => exact List.mem_singleton.mpr rfl
  | cons c q => exact List.mem_cons_self

theorem Leads.mem_trail (h : Leads id q v w) : w ∈ trail id q v := by
  induction q generalizing v with
  | nil => exact List.mem_singleton.mpr (Eq.symm h)
  | cons c q ih => exact List.mem_cons_of_mem v (ih h.2)

theorem Leads.append (h : Leads id q v w) (hc : c.Fits id w) :
    Leads id (q ++ [c]) v (c.after id w) := by
  induction q generalizing v with
  | nil =>
    obtain rfl : v = w := h
    exact ⟨hc, rfl⟩
  | cons d q ih => exact ⟨h.1, ih h.2⟩

theorem mem_trail_append (c : Change) (h : u ∈ trail id q v) : u ∈ trail id (q ++ [c]) v := by
  induction q generalizing v with
  | nil =>
    obtain rfl := List.mem_singleton.mp h
    exact List.mem_cons_self
  | cons d q ih =>
    rcases List.mem_cons.mp h with rfl | h
    · exact List.mem_cons_self
    · exact List.mem_cons_of_mem v (ih h)

/-- **Taking the first change keeps a table on the way**: where the table is at its start it follows
the change, and where it is ahead it keeps what it has or goes back to the state after the
change. -/
theorem mem_trail_merge (h : Leads id (c :: q) v w) (hu : u ∈ trail id (c :: q) v) :
    c.merge id u ∈ trail id q (c.after id v) := by
  rcases List.mem_cons.mp hu with rfl | hu
  · rw [Change.merge_eq_after h.1]
    exact mem_trail_start id q _
  · rcases c.merge_eq_or id u v with hm | hm
    · rw [hm]
      exact hu
    · rw [hm]
      exact mem_trail_start id q _

end History

/-! ### Commits -/

namespace Write

variable {s s' : RouteStore} {now : Int} {w : Write} {c : Change}

theorem commit_some (h : w.commit s now = (some c, s')) :
    (∃ r stored, w = .add r ∧ s.insert r now = (.ok stored, s') ∧ c = .add stored) ∨
    (∃ r stored, w = .update r ∧ s.update r now = (.ok (some stored), s') ∧ c = .update stored) ∨
    ∃ id, w = .delete id ∧ s.delete id = (.ok true, s') ∧ c = .delete id := by
  cases w with
  | add r =>
    rcases hs : s.insert r now with ⟨e | stored, st⟩
    · simp [commit, hs] at h
    · simp only [commit, hs, Prod.mk.injEq, Option.some.injEq] at h
      obtain ⟨rfl, rfl⟩ := h
      exact Or.inl ⟨r, stored, rfl, hs, rfl⟩
  | update r =>
    rcases hs : s.update r now with ⟨e | none | stored, st⟩
    · simp [commit, hs] at h
    · simp [commit, hs] at h
    · simp only [commit, hs, Prod.mk.injEq, Option.some.injEq] at h
      obtain ⟨rfl, rfl⟩ := h
      exact Or.inr (Or.inl ⟨r, stored, rfl, hs, rfl⟩)
  | delete id =>
    rcases hs : s.delete id with ⟨e | deleted, st⟩
    · simp [commit, hs] at h
    · cases deleted with
      | false => simp [commit, hs] at h
      | true =>
        simp only [commit, hs, Prod.mk.injEq, Option.some.injEq] at h
        obtain ⟨rfl, rfl⟩ := h
        exact Or.inr (Or.inr ⟨id, rfl, hs, rfl⟩)

/-- A call that the store refuses leaves the store as it is, or has spent a row. -/
theorem commit_none (h : w.commit s now = (none, s')) :
    s' = s ∨ ∃ id, RouteStore.OnlyAt id s s' ∧ s'.Spent id := by
  cases w with
  | add r =>
    rcases hs : s.insert r now with ⟨e | stored, st⟩
    · simp only [commit, hs, Prod.mk.injEq, true_and] at h
      subst h
      rcases RouteStore.insert_cases hs with ⟨rfl, -⟩ | ⟨stored, he, -⟩
      · exact Or.inl rfl
      · cases he
    · simp [commit, hs] at h
  | update r =>
    rcases hs : s.update r now with ⟨e | none | stored, st⟩
    · simp only [commit, hs, Prod.mk.injEq, true_and] at h
      subst h
      rcases RouteStore.update_cases hs with ⟨rfl, -⟩ | ⟨_, -, -, -, ho, ⟨_, he, -⟩ | ⟨-, hsp, -⟩⟩
      · exact Or.inl rfl
      · cases he
      · exact Or.inr ⟨r.id, ho, hsp⟩
    · simp only [commit, hs, Prod.mk.injEq, true_and] at h
      subst h
      rcases RouteStore.update_cases hs with ⟨rfl, -⟩ | ⟨_, -, -, -, -, ⟨_, he, -⟩ | ⟨⟨_, he⟩, -⟩⟩
      · exact Or.inl rfl
      · cases he
      · cases he
    · simp [commit, hs] at h
  | delete id =>
    have hd : s' = (s.delete id).2 ∧ (s.delete id).1 ≠ .ok true := by
      rcases hs : s.delete id with ⟨e | deleted, st⟩
      · simp only [commit, hs, Prod.mk.injEq, true_and] at h
        exact ⟨h.symm, by simp⟩
      · cases deleted with
        | true => simp [commit, hs] at h
        | false =>
          simp only [commit, hs, Prod.mk.injEq, true_and] at h
          exact ⟨h.symm, by simp⟩
    rcases RouteStore.delete_cases (s := s) (Prod.eta (s.delete id)).symm with ⟨he, -⟩ | ⟨he, -⟩
    · exact Or.inl (hd.1.trans he)
    · exact absurd he hd.2

/-- An addition that the store makes is an addition where it showed nothing. -/
theorem shows_insert {r stored : Route} (h : s.insert r now = (.ok stored, s')) {id : String}
    {v : Option Route} (hv : s.Shows id v) :
    (Change.add stored).Fits id v ∧ s'.Shows id ((Change.add stored).after id v) := by
  rcases RouteStore.insert_cases h with ⟨-, e, he⟩ | ⟨st, hst, hr, ht, hrow, hf, ho⟩
  · cases he
  cases hst
  have hid : stored.id = r.id := by rw [hr]
  by_cases hne : stored.id = id
  · rw [hid] at hne
    subst hne
    have hn := RouteStore.find_of_row?_eq_none ht hrow
    have hvn : v = none := by
      rcases hv with hv | ⟨row, hrow', -⟩
      · rw [hn] at hv
        cases hv
        rfl
      · rw [hrow] at hrow'
        cases hrow'
    refine ⟨fun _ => hvn, ?_⟩
    rw [Change.after, if_pos hid]
    exact Or.inl hf
  · refine ⟨fun h => absurd h hne, ?_⟩
    rw [Change.after, if_neg hne]
    exact ho.shows (fun h => hne (hid.trans h.symm)) hv

/-- An update that the store makes is an update of an older route. -/
theorem shows_update {r stored : Route} (h : s.update r now = (.ok (some stored), s'))
    {id : String} {v : Option Route} (hv : s.Shows id v) :
    (Change.update stored).Fits id v ∧ s'.Shows id ((Change.update stored).after id v) := by
  rcases RouteStore.update_cases h with ⟨-, he | ⟨e, he⟩⟩ | ⟨old, hrow, hval, hver, ho, hcase⟩
  · cases he
  · cases he
  rcases hcase with ⟨st, hst, hr, hlast, hf⟩ | ⟨⟨e, he⟩, -⟩
  · cases hst
    have hid : stored.id = r.id := by rw [hr]
    by_cases hne : stored.id = id
    · rw [hid] at hne
      subst hne
      have hlow := r.version.le_toInt
      have hnew : stored.version.toInt = r.version.toInt + 1 := by
        rw [hr]
        exact Int64.toInt_ofInt_of_le (by omega) (by omega)
      have hs : ¬ old.Spent := by
        unfold Store.Row.Spent
        omega
      obtain ⟨t, rfl, ht⟩ := hv.of_valid hrow hval hs
      refine ⟨fun _ => ⟨t, rfl, ?_⟩, ?_⟩
      · rw [Int64.lt_iff_toInt_lt]
        omega
      · rw [Change.after, if_pos hid]
        exact Or.inl hf
    · refine ⟨fun h => absurd h hne, ?_⟩
      rw [Change.after, if_neg hne]
      exact ho.shows (fun h => hne (hid.trans h.symm)) hv
  · cases he

theorem shows_delete {id' : String} (h : s.delete id' = (.ok true, s')) {id : String}
    {v : Option Route} (hv : s.Shows id v) : s'.Shows id ((Change.delete id').after id v) := by
  rcases RouteStore.delete_cases h with ⟨-, he⟩ | ⟨-, -, -, hf, ho⟩
  · exact absurd rfl he
  by_cases hne : id' = id
  · rw [Change.after, if_pos hne, ← hne]
    exact Or.inl hf
  · rw [Change.after, if_neg hne]
    exact ho.shows (fun h => hne h.symm) hv

/-- **A change that the store makes** fits what it showed, and the store then shows what the change
leaves. -/
theorem shows_commit (h : w.commit s now = (some c, s')) {id : String} {v : Option Route}
    (hv : s.Shows id v) : c.Fits id v ∧ s'.Shows id (c.after id v) := by
  rcases commit_some h with ⟨r, stored, -, hs, rfl⟩ | ⟨r, stored, -, hs, rfl⟩ | ⟨id', -, hs, rfl⟩
  · exact shows_insert hs hv
  · exact shows_update hs hv
  · exact ⟨trivial, shows_delete hs hv⟩

theorem shows_refused (h : w.commit s now = (none, s')) {id : String} {v : Option Route}
    (hv : s.Shows id v) : s'.Shows id v := by
  rcases commit_none h with rfl | ⟨id', ho, hsp⟩
  · exact hv
  · by_cases hne : id = id'
    · subst hne
      exact Or.inr hsp
    · exact ho.shows hne hv

end Write
end EdgeGateway

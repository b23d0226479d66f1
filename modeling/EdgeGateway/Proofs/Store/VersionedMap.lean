import EdgeGateway.Proofs.Store.LostUpdate

/-! # The store as a versioned map

A versioned map keeps under an id the route that was written there last, with the times of its
insertion and of its last writing, and counts its updates. The store keeps the same as a row, with
the rules as JSON text and the counter as the version (`Entry.row`), so as long as no counter leaves
the range of versions, it gives the answers of the map to all calls (`run_store`). What the map
keeps under an id can be read off the calls that had success (`recorded`). -/

namespace EdgeGateway.RouteStore

open Store

/-- What a versioned map keeps under an id. -/
structure Entry where
  written : Route
  insertedAt : Int
  writtenAt : Int
  updates : Nat

namespace Entry

/-- The entry of a route that is inserted. -/
def new (r : Route) (now : Int) : Entry := ⟨r, now, now, 0⟩

/-- The entry after an update. -/
def update (e : Entry) (r : Route) (now : Int) : Entry := ⟨r, e.insertedAt, now, e.updates + 1⟩

/-- The route that the entry shows: its times and its version are not those that were written. -/
def route (e : Entry) : Route :=
  { e.written with
    createdAt := Instant.ofMillis? e.insertedAt, updatedAt := Instant.ofMillis? e.writtenAt,
    version := Int64.ofInt e.updates }

/-- The row that stands for the entry in the store. -/
def row (e : Entry) : Row :=
  { Row.ofRoute e.written e.insertedAt with updateTime := e.writtenAt, version := e.updates }

/-- What a call with its answer leaves of the entry of an id: only a call that has had success
makes a difference. -/
def after (id : String) (o : Option Entry) : Request × Exchange → Option Entry
  | (.insert r now, .inserted _ (.ok _)) => if r.id = id then some (.new r now) else o
  | (.update r now, .updated _ (.ok (some _))) =>
    if r.id = id then o.map fun e => e.update r now else o
  | (.delete id', .deleted _ (.ok true)) => if id' = id then none else o
  | _ => o

/-- An entry is the one from before, or new, or updated. -/
theorem after_cases {id : String} {o : Option Entry} {c : Request × Exchange} {e : Entry}
    (h : after id o c = some e) : o = some e ∨ (∃ r now, r.id = id ∧ e = new r now) ∨
      ∃ old r now, o = some old ∧ r.id = id ∧ e = old.update r now := by
  unfold after at h
  split at h
  next r now _ _ =>
    split_ifs at h with hid
    · exact Or.inr (Or.inl ⟨r, now, hid, (Option.some.inj h).symm⟩)
    · exact Or.inl h
  next r now _ _ =>
    split_ifs at h with hid
    · obtain ⟨old, ho, rfl⟩ := Option.map_eq_some_iff.mp h
      exact Or.inr (Or.inr ⟨old, r, now, ho, hid, rfl⟩)
    · exact Or.inl h
  next =>
    split_ifs at h
    exact Or.inl h
  next => exact Or.inl h

theorem row_new (r : Route) (now : Int) : (new r now).row = .ofRoute r now := rfl

theorem row_update (e : Entry) (r : Route) (now : Int) :
    (e.update r now).row = e.row.updated r now := by
  unfold row update Row.updated Row.ofRoute
  rw [Int.natCast_add]
  rfl

/-- **The row of an entry is read back as the route that the entry shows.** -/
theorem read_row {e : Entry} (h : e.updates < 2 ^ 63) :
    e.row.read e.written.id = .ok e.route := by
  have hf : e.row.fits = true := by
    rw [Row.fits_iff]
    have ho := And.intro e.written.order.le_toInt e.written.order.toInt_lt
    refine ⟨?_, ho⟩
    show -2 ^ 63 ≤ (e.updates : Int) ∧ (e.updates : Int) < 2 ^ 63
    omega
  have ht := @Row.toRoute_of_rules e.row e.written.predicates e.written.filters rfl rfl e.written.id
  rw [Row.read_of_fits hf, ht]
  simp only [row, Row.ofRoute, Int32.ofInt_toInt]
  rfl

end Entry

/-! ### Versioned maps -/

/-- A versioned map, by ids. -/
abbrev VersionedMap := KeyMap Entry

namespace VersionedMap

/-- The routes of the map in match order. -/
def listing (m : VersionedMap) : List Route := Route.sort (m.values.map Entry.route)

/-- Inserts a route, unless there is one of its id. -/
def add (m : VersionedMap) (r : Route) (now : Int) : Except StoreError Route × VersionedMap :=
  if m.contains r.id then (.error (.duplicate r.id), m)
  else (.ok (Entry.new r now).route, m.insert r.id (.new r now))

/-- Updates the route with the id of `r`, if it has been updated as often as the version of `r`
says. -/
def change (m : VersionedMap) (r : Route) (now : Int) : Option Route × VersionedMap :=
  match m.get? r.id with
  | none => (none, m)
  | some e =>
    if e.updates = r.version.toInt then
      (some (e.update r now).route, m.insert r.id (e.update r now))
    else (none, m)

/-- Deletes the route of an id; tells whether there was one. -/
def remove (m : VersionedMap) (id : String) : Bool × VersionedMap :=
  if m.contains id then (true, m.erase id) else (false, m)

/-- Answers a call. -/
def serve (m : VersionedMap) : Request → Exchange × VersionedMap
  | .find id => (.found id (.ok ((m.get? id).map Entry.route)), m)
  | .list => (.listed (.ok (listing m)), m)
  | .insert r now => (.inserted r (add m r now).1, (add m r now).2)
  | .update r now => (.updated r (.ok (change m r now).1), (change m r now).2)
  | .delete id => (.deleted id (.ok (remove m id).1), (remove m id).2)

/-- The map after calls. -/
def serveAll (m : VersionedMap) (qs : List Request) : VersionedMap :=
  qs.foldl (fun m q => (serve m q).2) m

/-- Those calls with their answers. -/
def history : VersionedMap → List Request → List Exchange
  | _, [] => []
  | m, q :: qs => (serve m q).1 :: history (serve m q).2 qs

/-- The store that holds the rows of the map. -/
def store (m : VersionedMap) : RouteStore := ⟨some (m.map Entry.row)⟩

/-- Each entry is kept under the id of its route. -/
def Keyed (m : VersionedMap) : Prop := ∀ id e, m.get? id = some e → e.written.id = id

/-- No route of the map has been updated more often than versions can count. -/
def Counted (m : VersionedMap) : Prop := ∀ id e, m.get? id = some e → e.updates < 2 ^ 63

variable {m : VersionedMap}

/-! ### What a call changes -/

/-- **A call changes the entry of an id as its answer says.** -/
theorem get?_serve (m : VersionedMap) (q : Request) (id : String) :
    (serve m q).2.get? id = Entry.after id (m.get? id) (q, (serve m q).1) := by
  cases q with
  | find _ => rfl
  | list => rfl
  | insert r now =>
    unfold serve add
    dsimp only
    split_ifs with hc
    · rfl
    · rw [KeyMap.get?_insert]
      exact if_congr eq_comm rfl rfl
  | update r now =>
    unfold serve change
    dsimp only
    match hg : m.get? r.id with
    | none => rfl
    | some e =>
      dsimp only
      split_ifs with hv
      · rw [KeyMap.get?_insert]
        show (if id = r.id then _ else _) = if r.id = id then (m.get? id).map _ else _
        by_cases hid : r.id = id
        · subst hid
          rw [if_pos rfl, if_pos rfl, hg]
          rfl
        · rw [if_neg (Ne.symm hid), if_neg hid]
      · rfl
  | delete id' =>
    unfold serve remove
    dsimp only
    split_ifs with hc
    · rw [KeyMap.get?_erase]
      exact if_congr eq_comm rfl rfl
    · rfl

theorem keyed_empty : Keyed .empty := fun _ _ h => by cases h

theorem Keyed.serve (h : Keyed m) (q : Request) : Keyed (serve m q).2 := by
  intro id e he
  rw [get?_serve] at he
  rcases Entry.after_cases he with ho | ⟨r, now, hid, rfl⟩ | ⟨old, r, now, -, hid, rfl⟩
  · exact h id e ho
  · exact hid
  · exact hid

/-! ### One call -/

theorem lookup_store (hk : Keyed m) (hc : Counted m) (id : String) :
    lookup (m.map Entry.row) id = .ok ((m.get? id).map Entry.route) := by
  unfold lookup
  rw [KeyMap.get?_map]
  match hg : m.get? id with
  | none => rfl
  | some e =>
    obtain rfl := hk id e hg
    have hr := Entry.read_row (hc _ e hg)
    show Except.map some (e.row.read e.written.id) = .ok (some e.route)
    rw [hr]
    rfl

theorem find_store (hk : Keyed m) (hc : Counted m) (id : String) :
    (store m).find id = .ok ((m.get? id).map Entry.route) :=
  lookup_store hk hc id

theorem nodup_ids (hk : Keyed m) : ((m.values.map Entry.route).map Route.id).Nodup := by
  have hm : (m.values.map Entry.route).map Route.id = m.entries.map Prod.fst := by
    unfold KeyMap.values
    rw [List.map_map, List.map_map]
    exact List.map_congr_left fun e he => hk e.1 e.2 (m.get?_eq_some_iff.mpr he)
  rw [hm]
  exact m.nodup_keys

theorem mem_listing_iff (hk : Keyed m) (r : Route) :
    r ∈ listing m ↔ (m.get? r.id).map Entry.route = some r := by
  unfold listing
  rw [(Route.sort_perm _).mem_iff, List.mem_map, Option.map_eq_some_iff]
  constructor
  · rintro ⟨e, he, rfl⟩
    obtain ⟨id, hid⟩ := m.mem_values_iff.mp he
    obtain rfl := hk id e hid
    exact ⟨e, hid, rfl⟩
  · rintro ⟨e, he, hr⟩
    exact ⟨e, m.mem_values_iff.mpr ⟨r.id, he⟩, hr⟩

theorem list_store (hk : Keyed m) (hc : Counted m) : (store m).list = .ok (listing m) := by
  obtain ⟨rs, hrs⟩ := exists_list (s := store m) fun id => ⟨_, find_store hk hc id⟩
  rw [hrs]
  refine congrArg Except.ok (Route.eq_of_pairwise_before (pairwise_of_list hrs)
    (Route.pairwise_sort (nodup_ids hk)) fun r => ?_)
  have hfind := find_eq_some_iff (m.map Entry.row) r.id r
  show r ∈ rs ↔ r ∈ listing m
  rw [mem_listing_iff hk, mem_of_list hrs, ← hfind,
    show find ⟨some (m.map Entry.row)⟩ r.id = _ from find_store hk hc r.id, Except.ok.injEq]

theorem insert_store {r : Route} {now : Int} (hk : Keyed (add m r now).2)
    (hc : Counted (add m r now).2) :
    (store m).insert r now = ((add m r now).1, store (add m r now).2) := by
  unfold add at hk hc ⊢
  unfold RouteStore.insert
  show (if (m.map Entry.row).contains r.id then _ else _) = _
  rw [KeyMap.contains_map]
  split_ifs at hk hc ⊢ with hn
  · rfl
  · dsimp only at hk hc ⊢
    rw [← Entry.row_new, KeyMap.map_insert, lookup_store hk hc, KeyMap.get?_insert, if_pos rfl]
    rfl

theorem update_store {r : Route} {now : Int} (hk : Keyed (change m r now).2)
    (hc : Counted (change m r now).2) :
    (store m).update r now = (.ok (change m r now).1, store (change m r now).2) := by
  have hrows : (store m).rows = .ok (m.map Entry.row) := rfl
  unfold change at hk hc ⊢
  unfold RouteStore.update
  rw [hrows]
  dsimp only
  rw [KeyMap.get?_map]
  rcases hg : m.get? r.id with _ | e
  · rfl
  rw [hg] at hk hc
  dsimp only [Option.map_some] at hk hc ⊢
  have hif : (e.row.valid = true ∧ e.row.version = r.version.toInt) ↔
      (e.updates : Int) = r.version.toInt := and_iff_right rfl
  rw [if_congr hif rfl rfl]
  split_ifs at hk hc ⊢ with hv
  · dsimp only at hk hc ⊢
    rw [← Entry.row_update, KeyMap.map_insert, lookup_store hk hc, KeyMap.get?_insert, if_pos rfl]
    rfl
  · rfl

theorem delete_store (m : VersionedMap) (id : String) :
    (store m).delete id = (.ok (remove m id).1, store (remove m id).2) := by
  unfold remove RouteStore.delete
  show (if (m.map Entry.row).contains id then _ else _) = _
  rw [KeyMap.contains_map]
  split_ifs
  · rw [KeyMap.map_erase]
    rfl
  · rfl

theorem insert_store_of_present {r : Route} (hk : Keyed m) (hc : Counted m)
    (hr : (m.get? r.id).isSome = true) (now : Int) :
    (store m).insert r now = (.error (.duplicate r.id), store m) := by
  have ha : add m r now = (.error (.duplicate r.id), m) := if_pos hr
  rw [insert_store (ha ▸ hk) (ha ▸ hc), ha]

theorem update_store_of_stale {r : Route} (hk : Keyed m) (hc : Counted m)
    (hr : ∀ e, m.get? r.id = some e → (e.updates : Int) ≠ r.version.toInt) (now : Int) :
    (store m).update r now = (.ok none, store m) := by
  have hn : change m r now = (none, m) := by
    unfold change
    match hg : m.get? r.id with
    | none => rfl
    | some e => exact if_neg (hr e hg)
  rw [update_store (hn ▸ hk) (hn ▸ hc), hn]

/-- **The store answers a call as the map does**, and holds the rows of the map after it. -/
theorem serve_store (hk : Keyed m) (hc : Counted m) (q : Request) (hq : Counted (serve m q).2) :
    (store m).serve q = ((serve m q).1, store (serve m q).2) := by
  have hk' := hk.serve q
  cases q with
  | find id =>
    show (Exchange.found id _, store m) = (Exchange.found id _, store m)
    rw [find_store hk hc]
  | list =>
    show (Exchange.listed _, store m) = (Exchange.listed _, store m)
    rw [list_store hk hc]
  | insert r now =>
    show (Exchange.inserted r _, _) = (Exchange.inserted r _, _)
    rw [insert_store hk' hq]
    rfl
  | update r now =>
    show (Exchange.updated r _, _) = (Exchange.updated r _, _)
    rw [update_store hk' hq]
    rfl
  | delete id =>
    show (Exchange.deleted id _, _) = (Exchange.deleted id _, _)
    rw [delete_store]
    rfl

/-! ### Runs -/

variable {qs : List Request}

theorem Keyed.serveAll (h : Keyed m) (qs : List Request) : Keyed (serveAll m qs) := by
  induction qs generalizing m with
  | nil => exact h
  | cons q qs ih => exact ih (h.serve q)

/-- **The store answers calls as the map does**, as long as the versions can count the updates. -/
theorem run_store (hk : Keyed m) (hc : ∀ pre, pre <+: qs → Counted (serveAll m pre)) :
    (store m).history qs = history m qs ∧ (store m).serveAll qs = store (serveAll m qs) := by
  induction qs generalizing m with
  | nil => exact ⟨rfl, rfl⟩
  | cons q qs ih =>
    have hstep := serve_store hk (hc [] List.nil_prefix) q (hc [q] ⟨qs, rfl⟩)
    obtain ⟨hh, hs⟩ := ih (hk.serve q) fun pre hp =>
      hc (q :: pre) (List.cons_prefix_cons.mpr ⟨rfl, hp⟩)
    constructor
    · rw [RouteStore.history, hstep, hh, history]
    · show ((store m).serve q).2.serveAll qs = _
      rw [hstep, hs]
      rfl

/-- The entry of an id can be read off the calls and their answers. -/
theorem get?_serveAll (m : VersionedMap) (qs : List Request) (id : String) :
    (serveAll m qs).get? id = (qs.zip (history m qs)).foldl (Entry.after id) (m.get? id) := by
  induction qs generalizing m with
  | nil => rfl
  | cons q qs ih =>
    rw [history, List.zip_cons_cons, List.foldl_cons, ← get?_serve]
    exact ih (serve m q).2

/-- A call counts at most one update of an id. -/
theorem updates_serveAll {n : Nat} (h : ∀ id e, m.get? id = some e → e.updates ≤ n)
    (qs : List Request) (id : String) (e : Entry) (he : (serveAll m qs).get? id = some e) :
    e.updates ≤ n + qs.length := by
  induction qs generalizing m n with
  | nil => exact h id e he
  | cons q qs ih =>
    have hn : ∀ id e, (serve m q).2.get? id = some e → e.updates ≤ n + 1 := by
      intro id e he
      rw [get?_serve] at he
      rcases Entry.after_cases he with ho | ⟨r, now, -, rfl⟩ | ⟨old, r, now, ho, -, rfl⟩
      · exact Nat.le_succ_of_le (h id e ho)
      · exact Nat.zero_le _
      · exact Nat.succ_le_succ (h id old ho)
    have hlast := ih hn he
    rw [List.length_cons]
    omega

/-- Fewer calls than versions cannot exhaust the versions. -/
theorem counted_of_length (h : qs.length < 2 ^ 63) :
    ∀ pre, pre <+: qs → Counted (serveAll .empty pre) := by
  intro pre hp id e he
  have hle := updates_serveAll (n := 0) (fun _ _ h => by cases h) pre id e he
  have hlen := hp.length_le
  omega

end VersionedMap

/-! ### The store -/

/-- The entry of an id that the calls with their answers have left. -/
def recorded (id : String) (calls : List (Request × Exchange)) : Option Entry :=
  calls.foldl (Entry.after id) none

/-- The store shows the entries that the ids have: it finds their routes, and lists just these, each
once, in match order. -/
structure ShowsAll (s : RouteStore) (live : String → Option Entry) : Prop where
  found : ∀ id, s.find id = .ok ((live id).map Entry.route)
  listed : ∃ rs, s.list = .ok rs ∧ (rs.map Route.id).Nodup ∧
    (RouteTable.ofRoutes rs).ordered = rs ∧ ∀ id r, s.find id = .ok (some r) ↔ r ∈ rs ∧ r.id = id

theorem showsAll_store {m : VersionedMap} (hk : m.Keyed) (hc : m.Counted) :
    m.store.ShowsAll m.get? where
  found := VersionedMap.find_store hk hc
  listed := by
    have hn : (m.listing.map Route.id).Nodup :=
      ((Route.sort_perm _).map Route.id).nodup_iff.mpr (VersionedMap.nodup_ids hk)
    refine ⟨m.listing, VersionedMap.list_store hk hc, hn,
      RouteTable.ordered_ofRoutes hn (Route.pairwise_sort (VersionedMap.nodup_ids hk)), ?_⟩
    intro id r
    rw [VersionedMap.find_store hk hc, Except.ok.injEq, VersionedMap.mem_listing_iff hk]
    constructor
    · intro hr
      obtain ⟨e, he, rfl⟩ := Option.map_eq_some_iff.mp hr
      obtain rfl := hk id e he
      exact ⟨hr, rfl⟩
    · rintro ⟨hr, rfl⟩
      exact hr

section Stored

variable {s s' : RouteStore} {r stored : Route} {now : Int}

theorem find_of_insert (h : s.insert r now = (.ok stored, s')) :
    s'.find r.id = .ok (some stored) := by
  rcases insert_cases h with ⟨-, e, he⟩ | ⟨_, hok, -, -, -, hfind, -⟩
  · cases he
  · cases hok
    exact hfind

theorem find_of_update (h : s.update r now = (.ok (some stored), s')) :
    s'.find r.id = .ok (some stored) := by
  rcases update_cases h with ⟨-, he | ⟨e, he⟩⟩ |
    ⟨-, -, -, -, -, ⟨_, hok, -, -, hfind⟩ | ⟨⟨e, he⟩, -⟩⟩
  · cases he
  · cases he
  · cases hok
    exact hfind
  · cases he

end Stored

/-- **The store refines a versioned map**: it gives the answers of the map to all calls, as long as
the versions can count the updates. What it then shows under an id is what the calls that had
success have left there, each stored route is found as it was answered, and an insertion of a
present id or an update that names another version changes nothing. -/
theorem refines_versioned_map (qs : List Request)
    (h : ∀ pre, pre <+: qs → (VersionedMap.serveAll .empty pre).Counted) :
    let s := RouteStore.empty.serveAll qs
    let live := fun id => recorded id (qs.zip (RouteStore.empty.history qs))
    RouteStore.empty.history qs = VersionedMap.history .empty qs ∧ s.ShowsAll live ∧
    (∀ r now stored s', s.insert r now = (.ok stored, s') → s'.find r.id = .ok (some stored)) ∧
    (∀ r now stored s', s.update r now = (.ok (some stored), s') →
      s'.find r.id = .ok (some stored)) ∧
    (∀ r now, (live r.id).isSome → s.insert r now = (.error (.duplicate r.id), s)) ∧
    ∀ r now, (∀ e, live r.id = some e → (e.updates : Int) ≠ r.version.toInt) →
      s.update r now = (.ok none, s) := by
  intro s live
  obtain ⟨hhist, hs⟩ := VersionedMap.run_store VersionedMap.keyed_empty h
  have hk := VersionedMap.keyed_empty.serveAll qs
  have hc := h qs List.prefix_rfl
  generalize hm : VersionedMap.serveAll .empty qs = m at hs hk hc
  have hst : s = m.store := hs
  have hlive : live = m.get? := by
    funext id
    rw [← hm, VersionedMap.get?_serveAll]
    exact congrArg (fun es => recorded id (qs.zip es)) hhist
  rw [hlive, hst]
  exact ⟨hhist, showsAll_store hk hc, fun _ _ _ _ => find_of_insert, fun _ _ _ _ => find_of_update,
    fun _ now hr => VersionedMap.insert_store_of_present hk hc hr now,
    fun _ now hr => VersionedMap.update_store_of_stale hk hc hr now⟩

/-- An id that is deleted and inserted anew, an insertion of a present id, and an update from an old
version. -/
theorem refines_versioned_map_anew :
    let a : Route := { Route.simple "a" "lb://a" with version := 7 }
    let b := Route.simple "b" "lb://b"
    let qs : List Request := [.insert a 0, .insert b 1, .update { a with version := 0 } 2,
      .insert a 3, .delete "b", .insert b 4, .update { a with version := 0 } 5]
    let s := RouteStore.empty.serveAll qs
    let shown : Route := { a with
      createdAt := Instant.ofMillis? 0, updatedAt := Instant.ofMillis? 2, version := 1 }
    (∀ pre, pre <+: qs → (VersionedMap.serveAll .empty pre).Counted) ∧
      s.find "a" = .ok (some shown) ∧
      (∃ rs, s.list = .ok rs ∧ shown ∈ rs ∧ (RouteTable.ofRoutes rs).ordered = rs) ∧
      s.insert b 6 = (.error (.duplicate "b"), s) ∧ s.update a 6 = (.ok none, s) := by
  intro a b qs s shown
  have hc : ∀ pre, pre <+: qs → (VersionedMap.serveAll .empty pre).Counted :=
    VersionedMap.counted_of_length (by decide)
  obtain ⟨-, ⟨hfound, rs, hlist, -, hord, hagree⟩, -, -, hins, hupd⟩ := refines_versioned_map qs hc
  have ha : s.find "a" = .ok (some shown) := by decide +kernel
  refine ⟨hc, ha, ⟨rs, hlist, ((hagree "a" shown).mp ha).1, hord⟩, hins b 6 (by decide +kernel), ?_⟩
  let calls := qs.zip (RouteStore.empty.history qs)
  refine hupd a 6 fun e (he : recorded "a" calls = some e) => ?_
  have hup : (recorded "a" calls).map Entry.updates = some 1 := by decide +kernel
  rw [he, Option.map_some, Option.some.injEq] at hup
  rw [hup]
  decide

end EdgeGateway.RouteStore

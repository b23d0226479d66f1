import Mathlib.Data.List.TakeWhile
import EdgeGateway.Http.Uri
import EdgeGateway.Proofs.Admin.Effects
import EdgeGateway.Proofs.Text.Split

/-! # Routes by their ids

A route is asked for and deleted by its id as the last segment of a path. The characters of a path
are read as they were written (`Http.Uri.parse?_path`), and the text up to a slash is an id
(`Endpoint.segment?_append`), so a route is reached by its id if that is one segment
(`addressable`). There is one exception: `/routes/reload` is the endpoint of a reload. -/

namespace EdgeGateway

/-! ### Targets that are a path -/

namespace Http.Uri

/-- A path character ends no path. -/
theorem isPathChar_ne {c : Char} (h : isPathChar c = true) : (c != '?' && c != '#') = true := by
  have hquestion : c ≠ '?' := by
    rintro rfl
    exact absurd h (by decide)
  have hhash : c ≠ '#' := by
    rintro rfl
    exact absurd h (by decide)
  rw [Bool.and_eq_true, bne_iff_ne, bne_iff_ne]
  exact ⟨hquestion, hhash⟩

theorem utf8ByteSize_ofList_le (cs : List Char) :
    (String.ofList cs).utf8ByteSize ≤ 4 * cs.length := by
  induction cs with
  | nil => exact Nat.le_refl 0
  | cons c cs ih =>
    have hc := c.utf8Size_le_four
    rw [String.ofList_cons, String.utf8ByteSize_append, String.utf8ByteSize_singleton,
      List.length_cons]
    omega

/-- A path that is not too long is read as it is. -/
theorem parse?_path {cs : List Char} (hlength : 4 * (cs.length + 1) ≤ maxLength)
    (hchars : ∀ c ∈ cs, isPathChar c = true) :
    parse? ('/' :: cs) = some ⟨none, none, '/' :: cs, none⟩ := by
  have hall : ∀ c ∈ '/' :: cs, isPathChar c = true := by
    intro c hc
    rcases List.mem_cons.mp hc with rfl | hc
    · decide
    · exact hchars c hc
  have htake : ('/' :: cs).takeWhile (fun c => c != '?' && c != '#') = '/' :: cs :=
    List.takeWhile_eq_self_iff.mpr fun c hc => isPathChar_ne (hall c hc)
  have hpath : pathAndQuery? ('/' :: cs) = some ('/' :: cs, none) := by
    unfold pathAndQuery?
    simp only [htake, List.drop_length, List.all_eq_true.mpr hall, Bool.not_true]
    rfl
  have hbytes := utf8ByteSize_ofList_le ('/' :: cs)
  rw [List.length_cons] at hbytes
  unfold parse?
  rw [if_neg (by omega), hpath]
  rfl

end Http.Uri

/-! ### Endpoints with an id -/

namespace Admin.Endpoint

theorem segment?_append (front p : String) : segment? front (front ++ p) =
    if (p.toList.takeWhile (· != '/')).isEmpty then none
    else some (String.ofList (p.toList.takeWhile (· != '/'))) := by
  have hfront : front.toList.isPrefixOf (front.toList ++ p.toList) = true := by
    rw [List.isPrefixOf_iff_prefix]
    exact List.prefix_append _ _
  unfold segment?
  simp only [String.toList_append, List.drop_left, hfront, Bool.true_and]
  cases (p.toList.takeWhile (· != '/')).isEmpty <;> rfl

/-- A text without a slash is one segment. -/
theorem segment?_of_not_mem {front id : String} (hne : id ≠ "") (h : '/' ∉ id.toList) :
    segment? front (front ++ id) = some id := by
  rw [segment?_append, Text.takeWhile_of_not_mem h, if_neg, String.ofList_toList]
  rw [List.isEmpty_iff]
  exact fun hnil => hne (String.toList_eq_nil_iff.mp hnil)

theorem append_ne {front path : String} (h : front.toList.isPrefixOf path.toList = false)
    (p : String) : front ++ p ≠ path := by
  rintro rfl
  rw [String.toList_append, Bool.eq_false_iff, Ne, List.isPrefixOf_iff_prefix] at h
  exact h (List.prefix_append _ _)

/-- Of the fixed paths only that of a reload could be the path of a route. -/
theorem of_get {p : String} (h : p ≠ "reload") :
    Endpoint.of "GET" ("/routes/" ++ p) =
      withSegment "/routes/" ("/routes/" ++ p) getRoute := by
  have hreload : "/routes/" ++ p ≠ "/routes/" ++ "reload" := fun he =>
    h ((String.append_right_inj _).mp he)
  unfold Endpoint.of
  -- the fixed paths that are asked for come first, then the one with an id, then the other methods
  split
  case h_1 he => exact absurd he (append_ne (by decide) p)
  case h_2 he => exact absurd he (append_ne (by decide) p)
  case h_3 he => exact absurd he hreload
  case h_7 he => exact absurd he (append_ne (by decide) p)
  case h_10 => rfl
  case h_12 hget _ _ _ _ _ _ _ _ _ _ => exact absurd rfl hget
  all_goals exact absurd ‹"GET" = _› (by decide)

theorem of_delete (p : String) : Endpoint.of "DELETE" ("/routes/" ++ p) =
    if (segment? "/routes/" ("/routes/" ++ p)).isSome then
      withSegment "/routes/" ("/routes/" ++ p) deleteRoute
    else withSegment "/blacklist/" ("/routes/" ++ p) removeAddress := by
  unfold Endpoint.of
  split
  case h_11 => rfl
  case h_12 hdelete _ _ _ _ _ _ _ _ _ => exact absurd rfl hdelete
  all_goals exact absurd ‹"DELETE" = _› (by decide)

variable {id : String} (hne : id ≠ "") (hslash : '/' ∉ id.toList)

include hne hslash

theorem of_get_id (h : id ≠ "reload") : Endpoint.of "GET" ("/routes/" ++ id) = getRoute id := by
  rw [of_get h, withSegment, segment?_of_not_mem hne hslash]
  rfl

theorem of_delete_id : Endpoint.of "DELETE" ("/routes/" ++ id) = deleteRoute id := by
  rw [of_delete, withSegment, segment?_of_not_mem hne hslash]
  rfl

end Admin.Endpoint

/-! ### Requests by their target -/

namespace Admin

/-- Answers a request by its method and its target, which must be a URI. -/
def answer? (a : Admin) (method : String) (target : String) (body : Body)
    (at_ : Blacklist.Readings) (now : Int) : Option (Reply × Admin) :=
  (Http.Uri.parse? target.toList).map fun u =>
    a.handle (.of method (String.ofList u.effectivePath)) body at_ now

/-- The id of some route without a fault. -/
def IsId (id : String) : Prop := ∃ r : Route, r.id = id ∧ r.Valid

theorem IsId.ne_empty {id : String} (h : IsId id) : id ≠ "" := by
  obtain ⟨r, rfl, hr⟩ := h
  intro he
  unfold Route.Valid Route.fault? at hr
  rw [he] at hr
  exact absurd hr (by simp)

theorem IsId.length_le {id : String} (h : IsId id) : id.toList.length ≤ Route.maxIdLength := by
  obtain ⟨r, rfl, hr⟩ := h
  unfold Route.Valid Route.fault? at hr
  dsimp only at hr
  split_ifs at hr
  omega

/-- A node and its store hold a route under an id, all of whose characters may stand in a path. -/
structure Holds (a : Admin) (id : String) : Prop where
  isId : IsId id
  chars : id.toList.all Http.Uri.isPathChar = true
  table : ((a.cluster.node a.node).table.get? id).isSome = true
  row : (a.cluster.store.row? id).isSome = true

variable {a : Admin} {id : String} (body : Body) (at_ : Blacklist.Readings) (now : Int)

theorem answer?_route (hid : IsId id) (hchars : id.toList.all Http.Uri.isPathChar = true)
    (method : String) : a.answer? method ("/routes/" ++ id) body at_ now =
      some (a.handle (.of method ("/routes/" ++ id)) body at_ now) := by
  have htarget : ("/routes/" ++ id).toList = '/' :: ("routes/".toList ++ id.toList) := by
    rw [String.toList_append]
    rfl
  have hall : ("routes/".toList ++ id.toList).all Http.Uri.isPathChar = true := by
    rw [List.all_append, hchars]
    rfl
  have hlength : 4 * (("routes/".toList ++ id.toList).length + 1) ≤ Http.Uri.maxLength := by
    have hid := hid.length_le
    have hfront : "routes/".toList.length = 7 := by decide
    rw [List.length_append, hfront]
    unfold Route.maxIdLength at hid
    unfold Http.Uri.maxLength
    omega
  unfold answer?
  rw [htarget, Http.Uri.parse?_path hlength (List.all_eq_true.mp hall), Option.map_some]
  show some (a.handle (.of method (String.ofList ('/' :: _))) body at_ now) = _
  rw [← htarget, String.ofList_toList]

theorem delete_of_row {s : RouteStore} (h : (s.row? id).isSome = true) :
    (s.delete id).1 = .ok true := by
  obtain ⟨_ | rows⟩ := s
  · cases h
  have hcontains : rows.contains id = true := h
  simp only [RouteStore.delete, RouteStore.rows, hcontains]
  rfl

theorem handle_getRoute {r : Route} (h : (a.cluster.node a.node).table.get? id = some r) :
    a.handle (.getRoute id) body at_ now = (.route false r, a) := by
  simp only [handle, Cluster.get, h]
  rfl

theorem handle_deleteRoute (h : (a.cluster.store.row? id).isSome = true) :
    ∃ a', a.handle (.deleteRoute id) body at_ now = (.done 200 "Route deleted", a') ∧
      a'.cluster.store.row? id = none ∧ a.Commits a' (.delete id) id none := by
  have hstore := delete_of_row h
  rcases hdelete : a.cluster.store.delete id with ⟨res, s⟩
  obtain rfl : res = .ok true := by rw [← hstore, hdelete]
  have hcluster : a.cluster.delete id =
      (.ok (), { a.cluster with store := s }.announce (.delete id)) := by
    unfold Cluster.delete
    rw [hdelete]
  have hhandle : a.handle (.deleteRoute id) body at_ now = (.done 200 "Route deleted",
      { a with cluster := { a.cluster with store := s }.announce (.delete id) }) := by
    simp only [handle, hcluster]
    rfl
  refine ⟨_, hhandle, ?_, ?_⟩
  · rcases RouteStore.delete_cases hdelete with ⟨-, hres⟩ | ⟨-, -, hrow, -⟩
    · exact absurd rfl hres
    · rwa [Cluster.store_announce]
  · have hfails : ¬ (a.handle (.deleteRoute id) body at_ now).1.Fails := by
      rw [hhandle]
      exact not_fails 200 rfl (by decide)
    have hcommits := commits_of_delete hfails
    rwa [hhandle] at hcommits

/-- **A route is reached by its id**, where that is one segment of a path: the route is shown as the
table has it, unless its path is that of a reload, and it is deleted alone. -/
theorem addressable (h : a.Holds id) (hslash : '/' ∉ id.toList) :
    ∃ r, (a.cluster.node a.node).table.get? id = some r ∧
      (id ≠ "reload" →
        a.answer? "GET" ("/routes/" ++ id) body at_ now = some (.route false r, a)) ∧
      (Reply.route false r).response = Reply.success 200 r.toTree ∧
      ∃ a', a.answer? "DELETE" ("/routes/" ++ id) body at_ now =
          some (.done 200 "Route deleted", a') ∧
        a'.cluster.store.row? id = none ∧ a.Commits a' (.delete id) id none := by
  have hne := h.isId.ne_empty
  obtain ⟨r, hr⟩ := Option.isSome_iff_exists.mp h.table
  refine ⟨r, hr, fun hreload => ?_, rfl, ?_⟩
  · rw [answer?_route body at_ now h.isId h.chars, Endpoint.of_get_id hne hslash hreload,
      handle_getRoute body at_ now hr]
  · obtain ⟨a', ha, hrow, hcommits⟩ := handle_deleteRoute body at_ now h.row
    refine ⟨a', ?_, hrow, hcommits⟩
    rw [answer?_route body at_ now h.isId h.chars, Endpoint.of_delete_id hne hslash, ha]

/-- A node over an empty store, once the routes were added and have reached its table. -/
def holding (rs : List Route) : Admin :=
  ⟨rs.foldl (fun c r => ((c.add 0 r 0).2.deliver 0 0).2) (.start 1), 0, .empty⟩

/-- An id with the characters that a path may have beside letters and digits. -/
theorem addressable_marks :
    let r : Route := .simple "a-b_c.d~e%2F:@!" "lb://a"
    let a := holding [r]
    ∃ t a', a.answer? "GET" ("/routes/" ++ r.id) default default 0 = some (.route false t, a) ∧
      a.answer? "DELETE" ("/routes/" ++ r.id) default default 0 =
        some (.done 200 "Route deleted", a') := by
  intro r a
  have hholds : a.Holds r.id :=
    ⟨⟨r, rfl, by decide +kernel⟩, by decide +kernel, by decide +kernel, by decide +kernel⟩
  obtain ⟨t, -, hget, -, a', hdelete, -⟩ := addressable default default 0 hholds (by decide +kernel)
  exact ⟨t, a', hget (by decide), hdelete⟩

/-- A route `reload` cannot be shown, since its path is that of a reload; and a route `a/b` cannot
be deleted, since its path is one of the route `a`. -/
theorem own_path_missed :
    let a := holding [.simple "reload" "lb://r"]
    let b := holding [.simple "a" "lb://a", .simple "a/b" "lb://b"]
    (a.Holds "reload" ∧ (a.answer? "GET" ("/routes/" ++ "reload") default default 0).map (·.1) =
      some (.count 1)) ∧
    b.Holds "a/b" ∧ (b.answer? "DELETE" ("/routes/" ++ "a/b") default default 0).map
      (fun x => (x.1, x.2.cluster.store.row? "a", x.2.cluster.store.row? "a/b")) =
      some (.done 200 "Route deleted", none, b.cluster.store.row? "a/b") := by
  intro a b
  have hreload : IsId "reload" := ⟨.simple "reload" "lb://r", rfl, by decide⟩
  have hslash : IsId "a/b" := ⟨.simple "a/b" "lb://b", rfl, by decide⟩
  exact ⟨⟨⟨hreload, by decide +kernel, by decide +kernel, by decide +kernel⟩, by decide +kernel⟩,
    ⟨hslash, by decide +kernel, by decide +kernel, by decide +kernel⟩, by decide +kernel⟩

end Admin
end EdgeGateway

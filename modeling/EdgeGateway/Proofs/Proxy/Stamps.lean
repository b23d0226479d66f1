import EdgeGateway.Proofs.Edge.Identity
import EdgeGateway.Proofs.Http.Value
import EdgeGateway.Proxy.Basic

/-! # Stamps

A request that is sent has the stamps of the gateway: its id, its route and, unless the route sends
it directly, its target. A stamp replaces whatever the client has put under its name
(`stamps_replace`). But nothing is done under the name of a stamp that is not written, and then the
client's own values are sent (`unstamped_kept`): where the id or the destination of the route has a
control character in it, and, under the name of the target, where the request is sent directly
(`client_stamps_sent`). -/

namespace EdgeGateway.Proxy

open Http Edge

variable {p p' : Proxy} {q q' : Request} {peer : Address} {at_ : Blacklist.Readings}
  {readings rest : List UInt64} {t : Uri} {r : Route} {id : UInt64} {n : String}

/-- A request is sent if the filter lets it through, a route accepts its path, there is an id for
it, and the route has a target for it. -/
theorem handle?_eq_sent_iff :
    p.handle? q peer at_ readings = some (.sent t q', p', rest) ↔
      ∃ q₁ c b r id g, p.filter.filter q peer p.blacklist at_ = (.forward q₁ c, b) ∧
        p.table.find? (String.ofList q.uri.effectivePath) = some r ∧
        p.ids.next? readings = some (.ok id, g, rest) ∧
        target? r p.engine.toList (sentPath q₁.uri) = some t ∧
        q' = { q₁ with uri := t, headers := stamp r id q₁.headers } ∧
        p' = { p with blacklist := b, ids := g } := by
  constructor
  · intro h
    unfold handle? at h
    rcases hf : p.filter.filter q peer p.blacklist at_ with ⟨_ | ⟨q₁, c⟩, b⟩
    · simp [hf] at h
    rcases hr : p.table.find? (String.ofList q.uri.effectivePath) with - | r
    · simp [hf, hr] at h
    rcases hi : p.ids.next? readings with - | ⟨e | id, g, rest'⟩
    · simp [hf, hr, hi] at h
    · simp [hf, hr, hi] at h
    rcases ht : target? r p.engine.toList (sentPath q₁.uri) with - | t'
    · simp [hf, hr, hi, dispatch, ht] at h
    simp only [hf, hr, hi, dispatch, ht, Option.map_some, Option.some.injEq, Prod.mk.injEq,
      Outcome.sent.injEq] at h
    obtain ⟨⟨rfl, rfl⟩, rfl, rfl⟩ := h
    exact ⟨q₁, c, b, r, id, g, rfl, rfl, rfl, ht, rfl, rfl⟩
  · rintro ⟨q₁, c, b, r, id, g, hf, hr, hi, ht, rfl, rfl⟩
    unfold handle?
    simp only [hf, hr, hi, dispatch, ht, Option.map_some]

/-! ### What stands under the names of the stamps -/

theorem values_stamp_id (r : Route) (id : UInt64) (h : Headers) :
    (stamp r id h).values idHeader = [HeaderValue.encode (toString id).toList] := by
  unfold stamp
  rw [Headers.values_setText_of_ne _ (by decide), Headers.values_setText_self,
    if_pos (stampable_decimal id), sanitize_decimal]

theorem values_stamp_route (r : Route) (id : UInt64) (h : Headers) :
    (stamp r id h).values routeHeader =
      if Stampable r.id.toList then [HeaderValue.encode (sanitize r.id.toList)]
      else h.values routeHeader := by
  unfold stamp
  rw [Headers.values_setText_self, Headers.values_setText_of_ne _ (by decide)]
  congr 1
  split_ifs
  · rw [Headers.values_remove, if_neg (by decide)]
  · rw [Headers.values_setText_of_ne _ (by decide)]

theorem values_stamp_target (r : Route) (id : UInt64) (h : Headers) :
    (stamp r id h).values targetHeader =
      if ¬ r.isDirect ∧ Stampable r.uri.toList then [HeaderValue.encode (sanitize r.uri.toList)]
      else h.values targetHeader := by
  unfold stamp
  rw [Headers.values_setText_of_ne _ (by decide), Headers.values_setText_of_ne _ (by decide)]
  by_cases hd : r.isDirect
  · rw [if_pos hd, if_neg (fun h => h.1 hd), Headers.values_remove, if_neg (by decide)]
  · rw [if_neg hd, Headers.values_setText_self]
    simp [hd]

/-! ### Requests that are sent -/

/-- What a request says that is sent by the route under the id: each stamp stands once under its
name, if its text can be a header value. -/
structure Stamped (r : Route) (id : UInt64) (h : Headers) : Prop where
  id : h.values idHeader = [HeaderValue.encode (toString id).toList]
  route : Stampable r.id.toList →
    h.values routeHeader = [HeaderValue.encode (sanitize r.id.toList)]
  target : r.isDirect = false → Stampable r.uri.toList →
    h.values targetHeader = [HeaderValue.encode (sanitize r.uri.toList)]

/-- **Stamps replace what the client has said.** A request that is sent has the stamps of the route
that accepts its path and of the id that was just generated, whatever stood under their names. -/
theorem stamps_replace (h : p.handle? q peer at_ readings = some (.sent t q', p', rest)) :
    ∃ r id, p.table.find? (String.ofList q.uri.effectivePath) = some r ∧
      p.ids.next? readings = some (.ok id, p'.ids, rest) ∧ Stamped r id q'.headers := by
  obtain ⟨q₁, c, b, r, id, g, -, hr, hi, -, rfl, rfl⟩ := handle?_eq_sent_iff.mp h
  refine ⟨r, id, hr, hi, values_stamp_id r id q₁.headers, fun hs => ?_, fun hd hs => ?_⟩
  · exact (values_stamp_route r id q₁.headers).trans (if_pos hs)
  · exact (values_stamp_target r id q₁.headers).trans (if_pos ⟨by simp [hd], hs⟩)

/-- The headers of a request that is sent. -/
def Outcome.headers? : Outcome → Option Headers
  | .sent _ q => some q.headers
  | _ => none

theorem exists_sent {x : Option (Outcome × Proxy × List UInt64)} {n : String}
    {v : List HeaderValue} (h : (x.bind (·.1.headers?)).map (·.values n) = some v) :
    ∃ t q' p' rest, x = some (.sent t q', p', rest) ∧ q'.headers.values n = v := by
  obtain ⟨hs, hx, hv⟩ := Option.map_eq_some_iff.mp h
  obtain ⟨⟨o, p', rest⟩, rfl, ho⟩ := Option.bind_eq_some_iff.mp hx
  cases o with
  | sent t q' =>
    obtain rfl : q'.headers = hs := Option.some.inj ho
    exact ⟨t, q', p', rest, rfl, hv⟩
  | _ => cases ho

/-- A client puts values of its own under the names of all stamps, under one of them two. -/
theorem stamps_replace_spoofed :
    let r : Route := { Route.simple "köln" "lb://orders" with
      predicates := [(Rule.named "Path").withArg "_genkey_0" "/x/**"] }
    let f : Filter :=
      ⟨.standard, "authorization", "x-user-id", "x-real-ip", "x-forwarded-for", none⟩
    let p : Proxy := ⟨f, .ofRoutes [r], ⟨1, 1, 0, 0⟩, .empty, "http://engine:9000"⟩
    let spoof := "spoof".toUTF8.toList
    let q : Request := ⟨"GET", ⟨none, none, "/x/1".toList, none⟩,
      ⟨[(routeHeader, spoof), (idHeader, spoof), (targetHeader, spoof), (routeHeader, spoof)]⟩, []⟩
    ∃ t q' p' rest, p.handle? q default default [1700000000000] = some (.sent t q', p', rest) ∧
      q'.headers.values idHeader = [HeaderValue.encode "1724551110456381440".toList] ∧
      q'.headers.values routeHeader = [HeaderValue.encode "köln".toList] ∧
      q'.headers.values targetHeader = [HeaderValue.encode "lb://orders".toList] := by
  intro r f p spoof q
  obtain ⟨t, q', p', rest, hs, -⟩ := exists_sent (n := routeHeader) (v := ["köln".toUTF8.toList])
    (x := p.handle? q default default [1700000000000]) (by decide +kernel)
  refine ⟨t, q', p', rest, hs, ?_⟩
  obtain ⟨r', id, hr, hi, hst⟩ := stamps_replace hs
  have hfind : p.table.find? (String.ofList q.uri.effectivePath) = some r := by decide +kernel
  have hnext : (p.ids.next? [1700000000000]).bind (·.1.toOption) = some 1724551110456381440 := by
    decide +kernel
  obtain rfl : r = r' := Option.some.inj (hfind.symm.trans hr)
  rw [hi] at hnext
  obtain rfl : id = 1724551110456381440 := Option.some.inj hnext
  refine ⟨hst.id, (hst.route (by decide +kernel)).trans ?_,
    (hst.target (by decide +kernel) (by decide +kernel)).trans ?_⟩
  · decide +kernel
  · decide +kernel

/-! ### What a client has said -/

/-- The gateway writes no stamp under the name. -/
inductive Unstamped (r : Route) : String → Prop
  | route (h : ¬ Stampable r.id.toList) : Unstamped r routeHeader
  | direct (h : r.isDirect = true) : Unstamped r targetHeader
  | target (h : ¬ Stampable r.uri.toList) : Unstamped r targetHeader

/-- The filter leaves the values of the headers that it does not set. -/
theorem values_of_forward {f : Filter} {b b' : Blacklist} {q₁ : Request} {c : Context}
    (h : f.filter q peer b at_ = (.forward q₁ c, b'))
    (hn : n ∉ [f.identityHeader, f.chainHeader, f.proxyHeader, "referer"]) :
    q₁.headers.values n = q.headers.values n := by
  simp only [List.mem_cons, List.not_mem_nil, or_false, not_or] at hn
  obtain ⟨hidentity, hchain, hproxy, hreferer⟩ := hn
  unfold Filter.filter at h
  rcases hb : b.contains
    (String.ofList (Client.resolve f.config.addressHeaders q.headers peer).address) at_
    with ⟨- | e, b₁⟩
  · simp only [hb, Prod.mk.injEq, Filter.Outcome.forward.injEq] at h
    obtain ⟨⟨rfl, -⟩, -⟩ := h
    unfold Filter.stamp
    rw [Filter.values_extendReferer hreferer, Filter.values_stampAddress hproxy,
      Filter.values_extendChain hchain, Filter.values_stampIdentity, if_neg hidentity]
  · simp [hb] at h

/-- **What is not stamped is the client's.** Under the name of a stamp that is not written, a
request is sent with what the client has put there. -/
theorem unstamped_kept (h : p.handle? q peer at_ readings = some (.sent t q', p', rest))
    (hr : p.table.find? (String.ofList q.uri.effectivePath) = some r) (hu : Unstamped r n)
    (hn : n ∉ [p.filter.identityHeader, p.filter.chainHeader, p.filter.proxyHeader, "referer"]) :
    q'.headers.values n = q.headers.values n := by
  obtain ⟨q₁, c, b, r', id, g, hf, hr', -, -, rfl, rfl⟩ := handle?_eq_sent_iff.mp h
  obtain rfl : r' = r := Option.some.inj (hr'.symm.trans hr)
  refine Eq.trans ?_ (values_of_forward hf hn)
  cases hu with
  | route hs => exact (values_stamp_route r' id q₁.headers).trans (if_neg hs)
  | direct hd => exact (values_stamp_target r' id q₁.headers).trans (if_neg (by simp [hd]))
  | target hs => exact (values_stamp_target r' id q₁.headers).trans (if_neg fun h => hs h.2)

/-- **A client's own stamps are sent** where the id of the route has a control character in it, and,
for the target, where the request is sent directly. -/
theorem client_stamps_sent :
    let path := (Rule.named "Path").withArg "_genkey_0" "/x/**"
    let control : Route := { Route.simple "a\x01" "lb://orders" with predicates := [path] }
    let direct : Route := { Route.simple "a" "http://10.0.0.5:8080" with predicates := [path] }
    let f : Filter :=
      ⟨.standard, "authorization", "x-user-id", "x-real-ip", "x-forwarded-for", none⟩
    let p (r : Route) : Proxy :=
      ⟨f, .ofRoutes [r], ⟨1, 1, 0, 0⟩, .empty, "http://engine:9000"⟩
    let spoof := "spoof".toUTF8.toList
    let q : Request := ⟨"GET", ⟨none, none, "/x/1".toList, none⟩,
      ⟨[(routeHeader, spoof), (targetHeader, spoof)]⟩, []⟩
    let sent (r : Route) (n : String) : Prop := ∃ t q' p' rest,
      (p r).handle? q default default [1700000000000] = some (.sent t q', p', rest) ∧
        q'.headers.values n = [spoof]
    control.Valid ∧ direct.Valid ∧ sent control routeHeader ∧ sent direct targetHeader := by
  intro path control direct f p spoof q sent
  exact ⟨by decide +kernel, by decide +kernel, exists_sent (by decide +kernel),
    exists_sent (by decide +kernel)⟩

end EdgeGateway.Proxy

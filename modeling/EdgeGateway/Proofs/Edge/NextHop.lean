import EdgeGateway.Proofs.Edge.Chain
import EdgeGateway.Proofs.Edge.FirstHop

/-! # The client at the next hop

The next hop looks for the client in the headers that this one forwards. The chain that is forwarded
begins with the client that was found in it, however it is cut, and without a proxy header the
client is told by one. So the next hop finds the same client, unless it goes by the chain and cannot
read it (`client_survives`): a marker beyond ASCII can be written into the chain, but then nothing
of the chain is read (`Garbled`). -/

namespace EdgeGateway.Edge

open Http HeaderValue

/-! ### Where a client is found -/

/-- The client that is found in a request, and where. -/
inductive Found (names : AddressHeaders) (h : Headers) (peer : Address) : Client → Prop
  | proxy {a : List Char} (ha : fromProxy? names h = some a) :
      Found names h peer ⟨a, .proxyHeader⟩
  | chain {a : List Char} (hp : fromProxy? names h = none) (ha : fromChain? names h = some a) :
      Found names h peer ⟨a, .forwardedFor⟩
  | connection (hp : fromProxy? names h = none) (hc : fromChain? names h = none) :
      Found names h peer ⟨peer.render, .connection⟩

theorem found_iff {peer : Address} {c : Client} :
    Found names h peer c ↔ Client.resolve names h peer = c := by
  have hresolve : Found names h peer (Client.resolve names h peer) := by
    unfold Client.resolve
    split
    next ha => exact .proxy ha
    next hp =>
      split
      next ha => exact .chain hp ha
      next hc => exact .connection hp hc
  constructor
  · rintro (ha | ⟨hp, ha⟩ | ⟨hp, hc⟩)
    · simp only [Client.resolve, ha]
    · simp only [Client.resolve, hp, ha]
    · simp only [Client.resolve, hp, hc]
  · rintro rfl
    exact hresolve

namespace Filter

variable {f : Filter} {client t : List Char} {h q : Headers} {x : Address}

/-- The headers that tell the client are not among the others that the filter sets. -/
structure AddressApart (f : Filter) : Prop where
  proxy_identity : f.proxyHeader ≠ f.identityHeader
  chain_identity : f.chainHeader ≠ f.identityHeader
  proxy_referer : f.proxyHeader ≠ "referer"
  chain_referer : f.chainHeader ≠ "referer"

/-- The proxy header tells no address, or has the name of the chain. -/
def GoesByChain (f : Filter) (q : Headers) : Prop :=
  fromProxy? f.config.addressHeaders q = none ∨ f.proxyHeader = f.chainHeader

section

variable {config : FilterConfig} {verify : Option (List Char → Token.Verdict)}
  (hf : new config verify = .ok f)

include hf

theorem fromProxy?_eq (q : Headers) : fromProxy? f.config.addressHeaders q =
    ((q.text? f.proxyHeader).map Text.trim).filter isAddress := by
  obtain ⟨rfl, -, -, -, hproxy, -⟩ := new_eq_ok_iff.1 hf
  rw [fromProxy?, headerText?, hproxy, Option.bind_some]

theorem fromChain?_eq (q : Headers) : fromChain? f.config.addressHeaders q =
    ((q.text? f.chainHeader).map firstHop).filter isAddress := by
  obtain ⟨rfl, -, -, -, -, hchain⟩ := new_eq_ok_iff.1 hf
  rw [fromChain?, headerText?, hchain, Option.bind_some]

/-- The proxy header is read as an address. -/
theorem fromProxy?_of_parse? (ht : q.text? f.proxyHeader = some t)
    (hx : Address.parse? (Text.trim t) = some x) :
    fromProxy? f.config.addressHeaders q = some (Text.trim t) := by
  rw [fromProxy?_eq hf, ht, Option.map_some, Option.filter_some, isAddress_eq, hx]
  rfl

theorem fromChain?_of_parse? (ht : q.text? f.chainHeader = some t)
    (hx : Address.parse? (firstHop t) = some x) :
    fromChain? f.config.addressHeaders q = some (firstHop t) := by
  rw [fromChain?_eq hf, ht, Option.map_some, Option.filter_some, isAddress_eq, hx]
  rfl

theorem exists_of_fromProxy? (hp : fromProxy? f.config.addressHeaders q = some client) :
    ∃ t x, q.text? f.proxyHeader = some t ∧ Text.trim t = client ∧
      Address.parse? client = some x := by
  rw [fromProxy?_eq hf, Option.filter_eq_some_iff, isAddress_eq, Option.isSome_iff_exists,
    Option.map_eq_some_iff] at hp
  obtain ⟨⟨t, ht, htrim⟩, x, hx⟩ := hp
  exact ⟨t, x, ht, htrim, hx⟩

theorem exists_of_fromChain? (hc : fromChain? f.config.addressHeaders q = some client) :
    ∃ t x, q.text? f.chainHeader = some t ∧ firstHop t = client ∧
      Address.parse? client = some x := by
  rw [fromChain?_eq hf, Option.filter_eq_some_iff, isAddress_eq, Option.isSome_iff_exists,
    Option.map_eq_some_iff] at hc
  obtain ⟨⟨t, ht, hfirst⟩, x, hx⟩ := hc
  exact ⟨t, x, ht, hfirst, hx⟩

/-- The client is found in the proxy header. -/
theorem resolve_of_proxy (ht : q.text? f.proxyHeader = some t)
    (hx : Address.parse? (Text.trim t) = some x) (next : Address) :
    (Client.resolve f.config.addressHeaders q next).address = Text.trim t := by
  rw [found_iff.mp (.proxy (fromProxy?_of_parse? hf ht hx))]

/-- The client is found at the front of the chain, also if the proxy header is the chain. -/
theorem GoesByChain.resolve_eq (hq : f.GoesByChain q) (ht : q.text? f.chainHeader = some t)
    (hx : Address.parse? (firstHop t) = some x) (next : Address) :
    (Client.resolve f.config.addressHeaders q next).address = firstHop t := by
  have hchain := fromChain?_of_parse? hf ht hx
  cases hp : fromProxy? f.config.addressHeaders q with
  | none => rw [found_iff.mp (.chain hp hchain)]
  | some a =>
    rcases hq with hq | hname
    · cases hp.symm.trans hq
    obtain ⟨t', y, ht', rfl, hy⟩ := exists_of_fromProxy? hf hp
    rw [hname, ht] at ht'
    cases ht'
    rw [found_iff.mp (.proxy hp), firstHop_of_parse?_trim hy]

/-- A chain that cannot be read tells nothing, and the peer is the client. -/
theorem GoesByChain.resolve_of_unread (hq : f.GoesByChain q)
    (ht : q.text? f.chainHeader = none) (next : Address) :
    (Client.resolve f.config.addressHeaders q next).address = next.render := by
  have hchain : fromChain? f.config.addressHeaders q = none := by
    rw [fromChain?_eq hf, ht]
    rfl
  have hproxy : fromProxy? f.config.addressHeaders q = none := by
    rcases hq with hproxy | hname
    · exact hproxy
    · rw [fromProxy?_eq hf, hname, ht]
      rfl
  rw [found_iff.mp (.connection hproxy hchain)]

end

/-! ### What is forwarded -/

theorem isReadableChar_of_parse? (hx : Address.parse? client = some x) :
    ∀ c ∈ client, isReadableChar c := by
  intro c hc
  have hchar := Address.isAddressChar_of_parse? hx c hc
  have hrange := Address.toNat_of_isAddressChar hchar
  exact isReadableChar_of_isValueChar (isValueChar_of_isAddressChar hchar) (by omega)

/-- An address is read as it was written. -/
theorem text?_encode_of_parse? (hx : Address.parse? client = some x) :
    text? (encode client) = some client := by
  rw [text?_encode, if_pos (List.all_eq_true.mpr (isReadableChar_of_parse? hx))]

/-- The client is told under the proxy header if that was missing. -/
theorem values_stampAddress_self (hx : Address.parse? client = some x) (h : Headers) :
    (f.stampAddress client h).values f.proxyHeader =
      if h.contains f.proxyHeader then h.values f.proxyHeader else [encode client] := by
  have hchars : ∀ c ∈ client, isValueChar c := fun c hc =>
    isValueChar_of_isAddressChar (Address.isAddressChar_of_parse? hx c hc)
  have hsanitize : sanitize client = client :=
    sanitize_eq_self hchars (Nat.le_trans (Address.length_le_of_parse? hx) (by decide))
  have hstampable : Stampable client := by
    rw [Stampable, hsanitize, List.all_eq_true]
    exact hchars
  rw [stampAddress]
  split
  next => rfl
  next => rw [Headers.values_setText_self, if_pos hstampable, hsanitize]

/-- The chain with the gateway is written, but cannot be read. -/
def Garbled (f : Filter) (client : List Char) (h : Headers) : Prop :=
  Stampable (f.chainText client h) ∧ ¬ (sanitize (f.chainText client h)).all isReadableChar

instance (client : List Char) (h : Headers) : Decidable (f.Garbled client h) := by
  unfold Garbled
  infer_instance

/-- The client is the first hop of the chain, or takes the place of one that is missing. -/
def Chained (f : Filter) (client : List Char) (h : Headers) : Prop :=
  (∃ t, h.text? f.chainHeader = some t ∧ firstHop t = client) ∨
    (f.proxyHeader = f.chainHeader ∧ h.values f.chainHeader = [])

theorem beginsWith_chainText (hc : f.Chained client h) (hx : Address.parse? client = some x) :
    BeginsWith client (f.chainText client h) := by
  have htext : f.chainText client h =
      f.chainStart client h ++ ',' :: (' ' :: f.config.marker.toList) := rfl
  rw [htext]
  rcases hc with ⟨t, ht, hfirst⟩ | ⟨-, hnone⟩
  · have hne : firstHop t ≠ [] := by
      rw [hfirst]
      exact ne_nil_of_parse? hx
    have hstart : f.chainStart client h = Text.trim t := by
      have htrim : Text.trim t ≠ [] := fun htrim =>
        hne (firstHop_of_blank (Text.strip_eq_nil_iff.mp htrim))
      unfold chainStart
      rw [ht, Option.map_some]
      cases hcs : Text.trim t with
      | nil => exact absurd hcs htrim
      | cons c cs => rfl
    have hbegins := beginsWith_trim_append hne (' ' :: f.config.marker.toList)
    rwa [hfirst, ← hstart] at hbegins
  · have hstart : f.chainStart client h = client := by
      unfold chainStart
      rw [Headers.text?_eq, hnone]
      rfl
    rw [hstart]
    exact ⟨[], _, rfl, rfl⟩

/-- A chain that cannot be read is forwarded as it is. -/
theorem Garbled.text?_stamp (hg : f.Garbled client h) (ha : f.AddressApart) (i : Identity) :
    (f.stamp client i h).text? f.chainHeader = none := by
  rw [Headers.text?_eq, values_stamp_of_stampable ha.chain_identity ha.chain_referer hg.1,
    List.head?_cons, Option.bind_some, text?_encode, if_neg hg.2]

/-- **The chain that is forwarded** begins with the client, if it can be read. -/
theorem exists_firstHop_stamp (ha : f.AddressApart) (hx : Address.parse? client = some x)
    (hc : f.Chained client h) (hg : ¬ f.Garbled client h) (i : Identity) :
    ∃ t, (f.stamp client i h).text? f.chainHeader = some t ∧ firstHop t = client := by
  by_cases hs : Stampable (f.chainText client h)
  · have hread : (sanitize (f.chainText client h)).all isReadableChar := by
      by_contra hread
      exact hg ⟨hs, hread⟩
    refine ⟨_, ?_, (beginsWith_chainText hc hx).firstHop_sanitize hx⟩
    rw [Headers.text?_eq, values_stamp_of_stampable ha.chain_identity ha.chain_referer hs,
      List.head?_cons, Option.bind_some, text?_encode, if_pos hread]
  · -- the chain is left as it was, and if it was missing it is where the client is told
    have hkept := values_extendChain_self ha.chain_identity client i h
    rw [if_neg hs] at hkept
    rw [Headers.text?_eq, stamp, values_extendReferer ha.chain_referer]
    by_cases hname : f.proxyHeader = f.chainHeader
    · have hvalues := values_stampAddress_self (f := f) hx
        (f.extendChain client (f.stampIdentity i h))
      rw [Headers.contains_eq, hname, hkept] at hvalues
      rw [hvalues]
      rcases hc with ⟨t, ht, hfirst⟩ | ⟨-, hnone⟩
      · rw [Headers.text?_eq] at ht
        have hsome : h.values f.chainHeader ≠ [] := fun hnone => by simp [hnone] at ht
        rw [if_pos (by simpa using hsome)]
        exact ⟨t, ht, hfirst⟩
      · rw [if_neg (by simp [hnone]), List.head?_cons, Option.bind_some,
          text?_encode_of_parse? hx]
        exact ⟨client, rfl, (firstHop_of_not_mem (not_mem_of_parse? hx)).trans
          (Address.trim_of_parse? hx)⟩
    · rw [values_stampAddress (Ne.symm hname), hkept, ← Headers.text?_eq]
      exact hc.resolve_right fun hmissing => hname hmissing.1

/-- A marker of ASCII characters leaves the chain readable. -/
theorem not_garbled_of_ascii (hm : ∀ c ∈ f.config.marker.toList, c.toNat < 128)
    (hx : Address.parse? client = some x) : ¬ f.Garbled client h := by
  rintro ⟨hs, hread⟩
  have hstart : ∀ c ∈ f.chainStart client h, c.toNat < 128 := by
    have hclient : ∀ c ∈ client, c.toNat < 128 := fun c hc =>
      toNat_of_isReadableChar (isReadableChar_of_parse? hx c hc)
    unfold chainStart
    split
    next c cs htext =>
      obtain ⟨t, ht, htrim⟩ := Option.map_eq_some_iff.mp htext
      rw [Headers.text?_eq, Option.bind_eq_some_iff] at ht
      obtain ⟨v, -, hv⟩ := ht
      rw [← htrim]
      exact fun c hc => toNat_of_isReadableChar
        (isReadableChar_of_text? hv c ((Text.trim_sublist t).mem hc))
    next => exact hclient
  have hascii : ∀ c ∈ f.chainText client h, c.toNat < 128 :=
    forall_mem_chainText hstart (by decide) (by decide) hm
  refine hread (List.all_eq_true.mpr fun c hc => ?_)
  have hmem : c ∈ f.chainText client h :=
    (List.mem_filter.mp (List.mem_of_mem_take hc)).1
  exact isReadableChar_of_isValueChar (List.all_eq_true.mp hs c hc) (hascii c hmem)

/-! ### The next hop -/

/-- The next hop can find the client in the chain only. -/
def ByChain (f : Filter) (c : Client) (h : Headers) : Prop :=
  f.proxyHeader = f.chainHeader ∨ h.contains f.proxyHeader ∧ c.origin = .forwardedFor

/-- The next hop goes by the chain, and cannot read it. -/
def Lost (f : Filter) (c : Client) (h : Headers) : Prop :=
  f.Garbled c.address h ∧ f.ByChain c h

instance (c : Client) (h : Headers) : Decidable (f.Lost c h) := by
  unfold Lost ByChain
  infer_instance

/-- The proxy header is left as it is, or tells the client if it was missing. -/
theorem values_stamp_proxy (ha : f.AddressApart) (hname : f.proxyHeader ≠ f.chainHeader)
    (hx : Address.parse? client = some x) (i : Identity) :
    (f.stamp client i h).values f.proxyHeader =
      if h.contains f.proxyHeader then h.values f.proxyHeader else [encode client] := by
  have hbefore : (f.extendChain client (f.stampIdentity i h)).values f.proxyHeader =
      h.values f.proxyHeader := by
    rw [values_extendChain hname, values_stampIdentity, if_neg ha.proxy_identity]
  rw [stamp, values_extendReferer ha.proxy_referer, values_stampAddress_self hx,
    Headers.contains_eq, hbefore, ← Headers.contains_eq]

section

variable {config : FilterConfig} {verify : Option (List Char → Token.Verdict)}
  (hf : new config verify = .ok f) (ha : f.AddressApart) {peer : Address} {c : Client}
  (hc : Found f.config.addressHeaders h peer c)

include hf ha

/-- Where the next hop goes by the chain, it finds the client if it can read the chain. -/
theorem resolve_stamp_of_chained (hx : Address.parse? client = some x) (hc : f.Chained client h)
    {i : Identity} (hq : f.GoesByChain (f.stamp client i h)) (next : Address) :
    (Client.resolve f.config.addressHeaders (f.stamp client i h) next).address =
      if f.Garbled client h then next.render else client := by
  split
  next hg => exact hq.resolve_of_unread hf (hg.text?_stamp ha i) next
  next hg =>
    obtain ⟨t, ht, hfirst⟩ := exists_firstHop_stamp ha hx hc hg i
    rw [hq.resolve_eq hf ht (by rw [hfirst, hx]), hfirst]

include hc

omit ha in
/-- Where the chain tells the client, it begins with it or is missing. -/
theorem ByChain.chained (hname : f.ByChain c h)
    (hcase : h.contains f.proxyHeader = false ∨ c.origin ≠ .connection) :
    f.Chained c.address h := by
  cases hc with
  | proxy hproxy =>
    obtain ⟨t, x, ht, rfl, hx⟩ := exists_of_fromProxy? hf hproxy
    rcases hname with hname | ⟨-, horigin⟩
    · rw [hname] at ht
      exact .inl ⟨t, ht, firstHop_of_parse?_trim hx⟩
    · cases horigin
  | chain hproxy hchain =>
    obtain ⟨t, x, ht, rfl, hx⟩ := exists_of_fromChain? hf hchain
    exact .inl ⟨t, ht, rfl⟩
  | connection hproxy hchain =>
    rcases hname with hname | ⟨-, horigin⟩
    · have hmissing := hcase.resolve_right fun hne => hne rfl
      rw [Headers.contains_eq, hname] at hmissing
      exact .inr ⟨hname, by simpa using hmissing⟩
    · cases horigin

/-- Where the chain tells the client, the next hop goes by it too. -/
theorem ByChain.goesByChain_stamp (hname : f.ByChain c h)
    (hx : Address.parse? c.address = some x) (i : Identity) :
    f.GoesByChain (f.stamp c.address i h) := by
  by_cases heq : f.proxyHeader = f.chainHeader
  · exact .inr heq
  · obtain ⟨hcontains, horigin⟩ := hname.resolve_left heq
    have hvalues := values_stamp_proxy ha heq hx i (h := h)
    rw [if_pos hcontains] at hvalues
    refine .inl ?_
    cases hc with
    | proxy hproxy => cases horigin
    | chain hproxy hchain =>
      rwa [fromProxy?_eq hf, Headers.text?_eq, hvalues, ← Headers.text?_eq, ← fromProxy?_eq hf]
    | connection hproxy hchain => cases horigin

/-- Elsewhere the proxy header tells the client. -/
theorem resolve_stamp_of_not_byChain (hname : ¬ f.ByChain c h)
    (hx : Address.parse? c.address = some x)
    (hcase : h.contains f.proxyHeader = false ∨ c.origin ≠ .connection) (i : Identity)
    (next : Address) :
    (Client.resolve f.config.addressHeaders (f.stamp c.address i h) next).address =
      c.address := by
  obtain ⟨heq, horigin⟩ := not_or.mp hname
  have hvalues := values_stamp_proxy ha heq hx i (h := h)
  cases hcontains : h.contains f.proxyHeader with
  | false =>
    rw [hcontains, if_neg Bool.false_ne_true] at hvalues
    have htext : (f.stamp c.address i h).text? f.proxyHeader = some c.address := by
      rw [Headers.text?_eq, hvalues, List.head?_cons, Option.bind_some, text?_encode_of_parse? hx]
    rw [resolve_of_proxy hf htext (by rw [Address.trim_of_parse? hx, hx]),
      Address.trim_of_parse? hx]
  | true =>
    rw [hcontains, if_pos rfl] at hvalues
    rw [hcontains] at hcase
    cases hc with
    | proxy hproxy =>
      obtain ⟨t, y, ht, rfl, hy⟩ := exists_of_fromProxy? hf hproxy
      rw [Headers.text?_eq, ← hvalues, ← Headers.text?_eq] at ht
      exact resolve_of_proxy hf ht hy next
    | chain hproxy hchain => exact absurd ⟨hcontains, rfl⟩ horigin
    | connection hproxy hchain => exact absurd rfl (hcase.resolve_left Bool.true_eq_false.mp)

/-- **The next hop finds the client**, unless it is lost. -/
theorem resolve_stamp (hcase : h.contains f.proxyHeader = false ∨ c.origin ≠ .connection)
    (i : Identity) (next : Address) :
    (Client.resolve f.config.addressHeaders (f.stamp c.address i h) next).address =
      if f.Lost c h then next.render else c.address := by
  have hx : Address.parse? c.address = some (sourceAddress f.config.addressHeaders h peer) := by
    rw [← found_iff.mp hc]
    exact parse?_resolve ..
  by_cases hname : f.ByChain c h
  · have hlost : f.Lost c h ↔ f.Garbled c.address h := and_iff_left hname
    have hresolve := resolve_stamp_of_chained hf ha hx (hname.chained hf hc hcase)
      (hname.goesByChain_stamp hf ha hc hx i) next
    simpa only [hlost] using hresolve
  · rw [if_neg fun hlost => hname hlost.2]
    exact resolve_stamp_of_not_byChain hf ha hc hname hx hcase i next

end

/-- **The client survives a hop.** If a forwarded request had no proxy header, or its client was
found in a header, the next hop finds the same client over whatever connection, unless it goes by
the chain and cannot read it: then it takes its own peer for the client. A chain with a marker of
ASCII characters is always read. -/
theorem client_survives {config : FilterConfig} {verify : Option (List Char → Token.Verdict)}
    (hf : new config verify = .ok f) (ha : f.AddressApart) {r q : Request} {c : Context}
    {peer : Address} {b : Blacklist} {at_ : Blacklist.Readings}
    (hq : (f.filter r peer b at_).1 = .forward q c)
    (hcase : r.headers.contains f.proxyHeader = false ∨ c.client.origin ≠ .connection) :
    (∀ next, (Client.resolve f.config.addressHeaders q.headers next).address =
      if f.Lost c.client r.headers then next.render else c.client.address) ∧
    ((∀ ch ∈ f.config.marker.toList, ch.toNat < 128) → ¬ f.Lost c.client r.headers) := by
  rw [filter] at hq
  split at hq
  next => cases hq
  next =>
    cases hq
    refine ⟨fun next => resolve_stamp hf ha (found_iff.mpr rfl) hcase _ next, fun hm hlost => ?_⟩
    exact not_garbled_of_ascii hm (parse?_resolve ..) hlost.1

/-- A request that a proxy could not tell the client of, and that has come two hops already. -/
theorem client_survives_unknown :
    let r : Request := ⟨"GET", default, ⟨[("x-real-ip", "unknown".toUTF8.toList),
      ("x-forwarded-for", "203.0.113.7, 10.0.0.2".toUTF8.toList)]⟩, []⟩
    new .standard none = .ok usual ∧ usual.AddressApart ∧
    ∃ q c, (usual.filter r default .empty default).1 = .forward q c ∧
      c.client = ⟨"203.0.113.7".toList, .forwardedFor⟩ ∧
      ∀ next, (Client.resolve .standard q.headers next).address = "203.0.113.7".toList := by
  intro r
  have ha : usual.AddressApart := ⟨by decide, by decide, by decide, by decide⟩
  have hq : (usual.filter r default .empty default).1 =
      .forward _ ⟨Client.resolve .standard r.headers default, _⟩ := rfl
  have hclient : Client.resolve .standard r.headers default =
      ⟨"203.0.113.7".toList, .forwardedFor⟩ := by decide +kernel
  rw [hclient] at hq
  have hmarker : usual.config.marker.toList.all fun ch => ch.toNat < 128 := by decide +kernel
  obtain ⟨hresolve, hascii⟩ := client_survives new_standard ha hq (.inr (by decide))
  refine ⟨new_standard, ha, _, _, hq, rfl, fun next => ?_⟩
  have hnext := hresolve next
  rwa [if_neg (hascii (by simpa using hmarker))] at hnext

/-- What is lost: behind a gateway whose marker is not ASCII, a client that was found in the
chain. -/
theorem client_lost :
    let f : Filter := { usual with config := { FilterConfig.standard with marker := "relé" } }
    let r : Request := ⟨"GET", default, ⟨[("x-real-ip", "unknown".toUTF8.toList),
      ("x-forwarded-for", "203.0.113.7".toUTF8.toList)]⟩, []⟩
    new f.config none = .ok f ∧ f.AddressApart ∧
    ∃ q c, (f.filter r default .empty default).1 = .forward q c ∧
      c.client = ⟨"203.0.113.7".toList, .forwardedFor⟩ ∧
      let next : Address := .v4 198 51 100 99
      (Client.resolve f.config.addressHeaders q.headers next).address =
        "198.51.100.99".toList := by
  intro f r
  have hf : new f.config none = .ok f :=
    new_eq_ok_iff.2 ⟨rfl, rfl, by decide +kernel, by decide +kernel, by decide +kernel,
      by decide +kernel⟩
  exact ⟨hf, ⟨by decide, by decide, by decide, by decide⟩, _, _, rfl, by decide +kernel,
    by decide +kernel⟩

end Filter
end EdgeGateway.Edge

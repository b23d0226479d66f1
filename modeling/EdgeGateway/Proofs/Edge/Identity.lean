import EdgeGateway.Edge.Filter
import EdgeGateway.Proofs.Http.Header

/-! # Nobody names themselves

What a request says about the identity of its caller has no effect: two requests that differ in the
values of the identity header only have one fate, one context, and are forwarded with the same
headers (`identity_not_spoofed`). The identity header of a forwarded request has the values that
its context calls for, none or one (`Identity.values`). -/

namespace EdgeGateway.Edge

open Http

/-! ### The identity header -/

/-- The values of the identity header that tell of a caller. -/
def Identity.values : Identity → List HeaderValue
  | .anonymous => []
  | .expired => ["anonymous:expired".toUTF8.toList]
  | .invalid => ["anonymous:invalid".toUTF8.toList]
  | .verified s => (HeaderValue.ofText? (sanitize s.toList)).toList

theorem Identity.values_eq (i : Identity) :
    i.values = (i.headerValue?.bind fun s => HeaderValue.ofText? (sanitize s.toList)).toList := by
  match i with
  | .anonymous => rfl
  | .expired => decide +kernel
  | .invalid => decide +kernel
  | .verified s => rfl

theorem Identity.length_values_le (i : Identity) : i.values.length ≤ 1 := by
  rw [i.values_eq]
  exact Option.length_toList_le

namespace Filter

variable (f : Filter)

/-- The identity header is none of the other headers that the filter goes by. -/
structure IdentityApart : Prop where
  auth : f.identityHeader ≠ f.authHeader
  proxy : f.identityHeader ≠ f.proxyHeader
  chain : f.identityHeader ≠ f.chainHeader
  cookie : f.identityHeader ≠ "cookie"
  referer : f.identityHeader ≠ "referer"

/-- The identity header is written anew: of its old values none is left, even if the new one
cannot be a value. -/
theorem values_stampIdentity (i : Identity) (h : Headers) (n : String) :
    (f.stampIdentity i h).values n = if n = f.identityHeader then i.values else h.values n := by
  rw [stampIdentity, i.values_eq]
  rcases i.headerValue? with - | s
  · simp only [Headers.values_remove]
    rfl
  · simp only [Headers.values_setText, Headers.values_remove]
    split
    next hn =>
      rw [Option.bind_some]
      rcases HeaderValue.ofText? (sanitize s.toList) with - | v <;> rfl
    next => rfl

variable {f}

theorem values_extendChain {n : String} (hn : n ≠ f.chainHeader) (client : List Char)
    (h : Headers) : (f.extendChain client h).values n = h.values n :=
  h.values_setText_of_ne hn _

theorem values_stampAddress {n : String} (hn : n ≠ f.proxyHeader) (client : List Char)
    (h : Headers) : (f.stampAddress client h).values n = h.values n := by
  rw [stampAddress]
  split
  next => rfl
  next => exact h.values_setText_of_ne hn _

theorem values_extendReferer {n : String} (hn : n ≠ "referer") (h : Headers) :
    (f.extendReferer h).values n = h.values n := by
  rw [extendReferer]
  split
  next => exact h.values_setText_of_ne hn _
  next => rfl

/-- The values of the identity header are those that the context calls for. -/
theorem IdentityApart.values_stamp (ha : f.IdentityApart) (client : List Char) (i : Identity)
    (h : Headers) : (f.stamp client i h).values f.identityHeader = i.values := by
  rw [stamp, values_extendReferer ha.referer, values_stampAddress ha.proxy,
    values_extendChain ha.chain, values_stampIdentity, if_pos rfl]

/-! ### Two requests -/

variable {h₁ h₂ : Headers}

theorem alike_stampIdentity (h : h₁.AlikeBut f.identityHeader h₂) (i : Identity) :
    (f.stampIdentity i h₁).Alike (f.stampIdentity i h₂) := by
  intro n
  rw [values_stampIdentity, values_stampIdentity]
  split
  next => rfl
  next hn => exact h n hn

theorem alike_extendChain (h : h₁.Alike h₂) (client : List Char) :
    (f.extendChain client h₁).Alike (f.extendChain client h₂) := by
  rw [extendChain, extendChain, h.text?]
  exact h.setText _ _

theorem alike_stampAddress (h : h₁.Alike h₂) (client : List Char) :
    (f.stampAddress client h₁).Alike (f.stampAddress client h₂) := by
  rw [stampAddress, stampAddress, h.contains]
  split
  next => exact h
  next => exact h.setText _ _

theorem alike_extendReferer (h : h₁.Alike h₂) :
    (f.extendReferer h₁).Alike (f.extendReferer h₂) := by
  rw [extendReferer, extendReferer, h.text?]
  split
  next => exact h.setText _ _
  next => exact h

/-- The trust headers are set alike, whatever was said about the identity. -/
theorem alike_stamp (h : h₁.AlikeBut f.identityHeader h₂) (client : List Char) (i : Identity) :
    (f.stamp client i h₁).Alike (f.stamp client i h₂) := by
  refine alike_extendReferer (alike_stampAddress (alike_extendChain ?_ client) client)
  exact alike_stampIdentity h i

theorem IdentityApart.identify_eq (ha : f.IdentityApart) (h : h₁.AlikeBut f.identityHeader h₂) :
    f.identify h₁ = f.identify h₂ := by
  have htoken : f.token? h₁ = f.token? h₂ := by
    rw [token?, token?, h.text? ha.auth.symm, cookie?, cookie?, h "cookie" ha.cookie.symm]
  rw [identify, identify, htoken]

/-- A filter has the names of its configuration, all of which are names of headers. -/
theorem new_eq_ok_iff {config : FilterConfig} {verify : Option (List Char → Token.Verdict)} :
    new config verify = .ok f ↔ f.config = config ∧ f.verify = verify ∧
      headerName? config.authHeader = some f.authHeader ∧
      headerName? config.identityHeader = some f.identityHeader ∧
      headerName? config.addressHeaders.proxy = some f.proxyHeader ∧
      headerName? config.addressHeaders.forwardedFor = some f.chainHeader := by
  obtain ⟨config', auth, identity, proxy, chain, verify'⟩ := f
  simp only [new, nameOf, bind, Except.bind, pure, Except.pure]
  rcases headerName? config.authHeader with - | a
  · simp
  rcases headerName? config.identityHeader with - | i
  · simp
  rcases headerName? config.addressHeaders.proxy with - | p
  · simp
  rcases headerName? config.addressHeaders.forwardedFor with - | c
  · simp
  simp only [Except.ok.injEq, Filter.mk.injEq, Option.some.injEq]
  grind

theorem headerText?_eq {name key n : String} (hkey : headerName? name = some key) (hn : key ≠ n)
    (h : h₁.AlikeBut n h₂) : headerText? h₁ name = headerText? h₂ name := by
  rw [headerText?, headerText?, hkey, Option.bind_some, Option.bind_some, h.text? hn]

theorem IdentityApart.resolve_eq {config : FilterConfig}
    {verify : Option (List Char → Token.Verdict)} (hf : new config verify = .ok f)
    (ha : f.IdentityApart) (h : h₁.AlikeBut f.identityHeader h₂) (peer : Address) :
    Client.resolve f.config.addressHeaders h₁ peer =
      Client.resolve f.config.addressHeaders h₂ peer := by
  obtain ⟨rfl, -, -, -, hproxy, hchain⟩ := new_eq_ok_iff.1 hf
  have hp : fromProxy? f.config.addressHeaders h₁ = fromProxy? f.config.addressHeaders h₂ := by
    rw [fromProxy?, headerText?_eq hproxy ha.proxy.symm h, fromProxy?]
  have hc : fromChain? f.config.addressHeaders h₁ = fromChain? f.config.addressHeaders h₂ := by
    rw [fromChain?, headerText?_eq hchain ha.chain.symm h, fromChain?]
  rw [Client.resolve, hp, hc, Client.resolve]

/-- The same outcome: the requests that are forwarded have the same context and the same headers,
as maps from names to values. -/
inductive Outcome.Alike : Outcome → Outcome → Prop
  | deny : Alike .deny .deny
  | forward {q₁ q₂ : Request} {c : Context} (method : q₁.method = q₂.method)
      (uri : q₁.uri = q₂.uri) (body : q₁.body = q₂.body) (headers : q₁.headers.Alike q₂.headers) :
      Alike (.forward q₁ c) (.forward q₂ c)

/-- **Nobody names themselves.** Two requests that differ in the identity header only have the same
outcome and leave the same blacklist; and a request that is forwarded has the identity values of its
context, one at most. -/
theorem identity_not_spoofed {config : FilterConfig}
    {verify : Option (List Char → Token.Verdict)} (hf : new config verify = .ok f)
    (ha : f.IdentityApart) {r₁ r₂ : Request} (hr : r₁.AlikeBut f.identityHeader r₂)
    (peer : Address) (b : Blacklist) (at_ : Blacklist.Readings) :
    (f.filter r₁ peer b at_).1.Alike (f.filter r₂ peer b at_).1 ∧
      (f.filter r₁ peer b at_).2 = (f.filter r₂ peer b at_).2 ∧
      ∀ q c, (f.filter r₁ peer b at_).1 = .forward q c →
        c.identity = f.identify r₂.headers ∧
        q.headers.values f.identityHeader = c.identity.values ∧ c.identity.values.length ≤ 1 := by
  have hclient := ha.resolve_eq hf hr.headers peer
  have hidentity := ha.identify_eq hr.headers
  simp only [filter, hclient, hidentity]
  split
  next => exact ⟨.deny, rfl, fun q c ho => nomatch ho⟩
  next =>
    refine ⟨.forward hr.method hr.uri hr.body (alike_stamp hr.headers _ _), rfl, ?_⟩
    rintro q c ⟨⟩
    exact ⟨rfl, ha.values_stamp _ _ _, Identity.length_values_le _⟩

/-- A request that calls itself by two names goes on as the caller of its token. -/
theorem identity_not_spoofed_twice :
    let f : Filter := ⟨.standard, "authorization", "x-user-id", "x-real-ip", "x-forwarded-for",
      some fun _ => .valid "u7"⟩
    let token := ("authorization", "Bearer abc".toUTF8.toList)
    let spoofed : Request := ⟨"GET", default,
      ⟨[("x-user-id", "admin".toUTF8.toList), token, ("x-user-id", "root".toUTF8.toList)]⟩, []⟩
    let plain : Request := ⟨"GET", default, ⟨[token]⟩, []⟩
    let outcome (r : Request) := (f.filter r default .empty default).1
    new .standard f.verify = .ok f ∧ f.IdentityApart ∧
      spoofed.AlikeBut f.identityHeader plain ∧ (outcome spoofed).Alike (outcome plain) ∧
      ∃ q c, outcome spoofed = .forward q c ∧
        q.headers.values f.identityHeader = ["u7".toUTF8.toList] := by
  intro f token spoofed plain outcome
  have hf : new .standard f.verify = .ok f :=
    new_eq_ok_iff.2 ⟨rfl, rfl, by decide +kernel, by decide +kernel, by decide +kernel,
      by decide +kernel⟩
  have ha : f.IdentityApart := ⟨by decide, by decide, by decide, by decide, by decide⟩
  have hr : spoofed.AlikeBut f.identityHeader plain := by
    refine ⟨rfl, rfl, rfl, fun n hn => ?_⟩
    have hne : ("x-user-id" == n) = false := beq_eq_false_iff_ne.2 (Ne.symm hn)
    simp [spoofed, plain, Headers.values, List.filter_cons, hne]
  obtain ⟨halike, -, hvalues⟩ := identity_not_spoofed hf ha hr default .empty default
  refine ⟨hf, ha, hr, halike, ?_⟩
  cases ho : outcome spoofed with
  | deny => exact absurd ho (by decide +kernel)
  | forward q c =>
    obtain ⟨hc, hq, -⟩ := hvalues q c ho
    have hidentity : f.identify plain.headers = .verified "u7" := by decide +kernel
    refine ⟨q, c, rfl, ?_⟩
    rw [hq, hc, hidentity]
    decide +kernel

end Filter
end EdgeGateway.Edge

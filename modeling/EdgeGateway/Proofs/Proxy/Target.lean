import Mathlib.Data.List.TakeWhile
import Mathlib.Tactic.SplitIfs
import EdgeGateway.Proxy.Target

/-! # Who chooses the host

A route whose requests are sent directly names the host in its destination (`Route.host`). The path
of a request follows the destination without the slashes at its end, so it begins with the slash
that ends the host, and has no effect on it (`target?_host`). But where nothing but slashes follows
`http://`, those of the scheme are taken away too, and the path of the request names the host. So
the host is fixed just for the routes that name one (`host_fixed_iff`). -/

namespace EdgeGateway

namespace Http.Uri

/-- The text of the authority at the front. -/
def authorityText (cs : List Char) : List Char :=
  cs.takeWhile fun c => c != '/' && c != '?' && c != '#'

theorem authority?_eq_some {cs a rest : List Char} (h : authority? cs = some (a, rest)) :
    a = authorityText cs := by
  unfold authority? at h
  dsimp only at h
  split_ifs at h
  exact (Prod.mk.inj (Option.some.inj h)).1.symm

/-- A slash ends the authority. -/
theorem authorityText_append (cs : List Char) {ds : List Char} (h : ds.head?.all (· = '/')) :
    authorityText (cs ++ ds) = authorityText cs := by
  have hd : ds.takeWhile (fun c => c != '/' && c != '?' && c != '#') = [] := by
    cases ds with
    | nil => rfl
    | cons d ds =>
      obtain rfl : d = '/' := by simpa using h
      rfl
  unfold authorityText
  rw [List.takeWhile_append, hd, List.append_nil]
  split_ifs with hl
  · exact ((List.takeWhile_prefix _).eq_of_length hl).symm
  · rfl

theorem scheme?_http (cs : List Char) :
    scheme? ("http://".toList ++ cs) = some (some "http".toList, cs) := by
  unfold scheme?
  rw [if_pos (by rfl)]
  rfl

/-- What follows `http://` is the authority, up to a slash, a question mark or a hash. -/
theorem parse?_http {cs : List Char} {t : Uri} (h : parse? ("http://".toList ++ cs) = some t) :
    t.scheme = some "http".toList ∧ t.authority = some (authorityText cs) := by
  have hs := scheme?_http cs
  -- a text that begins with a letter is read by its scheme, authority and path in turn
  rw [show "http://".toList ++ cs = 'h' :: ("ttp://".toList ++ cs) from rfl] at h hs
  unfold parse? at h
  split_ifs at h
  obtain ⟨⟨scheme, rest⟩, hscheme, h⟩ := Option.bind_eq_some_iff.mp h
  rw [hs, Option.some.injEq, Prod.mk.injEq] at hscheme
  obtain ⟨rfl, rfl⟩ := hscheme
  obtain ⟨⟨a, rest⟩, ha, h⟩ := Option.bind_eq_some_iff.mp h
  dsimp only at h
  split_ifs at h
  obtain ⟨⟨p, q⟩, -, h⟩ := Option.bind_eq_some_iff.mp h
  obtain rfl := authority?_eq_some ha
  obtain rfl := Option.some.inj h
  exact ⟨rfl, rfl⟩

end Http.Uri

namespace Proxy

/-- Only slashes are trimmed. -/
theorem exists_slashes (cs : List Char) :
    ∃ ds, cs = trimSlashes cs ++ ds ∧ ∀ c ∈ ds, c = '/' := by
  refine ⟨(cs.reverse.takeWhile (· == '/')).reverse, ?_, fun c hc => ?_⟩
  · unfold trimSlashes
    rw [← List.reverse_append, List.takeWhile_append_dropWhile, List.reverse_reverse]
  · simpa using List.mem_takeWhile_imp (List.mem_reverse.mp hc)

/-- The trimmed slashes follow the authority. -/
theorem authorityText_trimSlashes (cs : List Char) :
    Http.Uri.authorityText (trimSlashes cs) = Http.Uri.authorityText cs := by
  obtain ⟨ds, hds, hslash⟩ := exists_slashes cs
  have hhead : ds.head?.all (· = '/') := by
    cases ds with
    | nil => rfl
    | cons d ds => simpa using hslash d List.mem_cons_self
  have happend := Http.Uri.authorityText_append (trimSlashes cs) hhead
  rw [← hds] at happend
  exact happend.symm

theorem trimSlashes_append_of_slashes (cs : List Char) {ds : List Char} (h : ∀ c ∈ ds, c = '/') :
    trimSlashes (cs ++ ds) = trimSlashes cs := by
  unfold trimSlashes
  rw [List.reverse_append, List.dropWhile_append_of_pos (by simpa using h)]

theorem trimSlashes_append (cs : List Char) {ds : List Char} (h : ∃ c ∈ ds, c ≠ '/') :
    trimSlashes (cs ++ ds) = cs ++ trimSlashes ds := by
  unfold trimSlashes
  rw [List.reverse_append, List.dropWhile_append, if_neg ?_, List.reverse_append,
    List.reverse_reverse]
  rw [List.isEmpty_iff, List.dropWhile_eq_nil_iff]
  simpa using h

end Proxy

namespace Route

/-- The destination after `http://`. -/
def destination (r : Route) : List Char := r.uri.toList.drop 7

/-- The host, with its port, of a destination that begins with `http://`. -/
def host (r : Route) : List Char := Http.Uri.authorityText r.destination

/-- There is something but slashes after `http://`. -/
def NamesHost (r : Route) : Prop := ∃ c ∈ r.destination, c ≠ '/'

end Route

namespace Proxy

variable {r : Route} {engine p : List Char} {t : Http.Uri}

theorem base_of_isDirect (hd : r.isDirect = true) (engine : List Char) :
    r.base engine = "http://".toList ++ r.destination := by
  unfold Route.base Route.destination
  rw [if_pos hd]
  unfold Route.isDirect isDirectUri at hd
  rw [← beq_iff_eq.mp hd, List.take_append_drop]

/-- **A target has the host that the route names**, whatever the path of the request. -/
theorem target?_host (hd : r.isDirect = true) (hn : r.NamesHost) (hp : p.head? = some '/')
    (h : target? r engine p = some t) :
    t.scheme = some "http".toList ∧ t.authority = some r.host := by
  unfold target? at h
  rw [base_of_isDirect hd, trimSlashes_append _ hn, List.append_assoc] at h
  have ht := Http.Uri.parse?_http h
  rwa [Http.Uri.authorityText_append _ (by simp [hp]), authorityText_trimSlashes] at ht

/-- Where nothing but slashes follows `http://`, the path of a request begins with the rest of the
target. -/
theorem target?_of_slashes (hd : r.isDirect = true) (hn : ¬ r.NamesHost) (engine p : List Char) :
    target? r engine p = Http.Uri.parse? ("http:".toList ++ p) := by
  have hs : ∀ c ∈ r.destination, c = '/' := fun c hc => by
    by_contra hne
    exact hn ⟨c, hc, hne⟩
  unfold target?
  rw [base_of_isDirect hd, trimSlashes_append_of_slashes _ hs]
  rfl

/-- **The host is fixed just for the routes that name one**: whatever the engine, the targets of any
two requests have one scheme and one authority. -/
theorem host_fixed_iff (hd : r.isDirect = true) (engine : List Char) :
    r.NamesHost ↔ ∀ p₁ p₂ t₁ t₂, p₁.head? = some '/' → p₂.head? = some '/' →
      target? r engine p₁ = some t₁ → target? r engine p₂ = some t₂ →
      t₁.scheme = t₂.scheme ∧ t₁.authority = t₂.authority := by
  constructor
  · intro hn p₁ p₂ t₁ t₂ hp₁ hp₂ h₁ h₂
    obtain ⟨hs₁, ha₁⟩ := target?_host hd hn hp₁ h₁
    obtain ⟨hs₂, ha₂⟩ := target?_host hd hn hp₂ h₂
    exact ⟨hs₁.trans hs₂.symm, ha₁.trans ha₂.symm⟩
  · intro h
    by_contra hn
    have ht (p : List Char) := target?_of_slashes hd hn engine p
    have hab := (h "//a".toList "//b".toList _ _ rfl rfl ((ht _).trans (by rfl))
      ((ht _).trans (by rfl))).2
    exact absurd hab (by decide)

/-- A path that looks like a host is only a path where the route names a host. -/
theorem host_fixed_iff_named :
    let r : Route := .simple "a" "http://10.0.0.5:8080/v1/"
    let engine := "http://engine:9000".toList
    r.isDirect = true ∧ r.NamesHost ∧ ∃ t₁ t₂,
      target? r engine "/x?y=1".toList = some t₁ ∧
      target? r engine "//a.example/x".toList = some t₂ ∧
      t₁.scheme = t₂.scheme ∧ t₁.authority = t₂.authority := by
  intro r engine
  have hd : r.isDirect = true := by decide
  have hn : r.NamesHost := ⟨'1', by decide, by decide⟩
  obtain ⟨t₁, h₁⟩ : ∃ t₁, target? r engine "/x?y=1".toList = some t₁ :=
    Option.isSome_iff_exists.mp (by decide +kernel)
  obtain ⟨t₂, h₂⟩ : ∃ t₂, target? r engine "//a.example/x".toList = some t₂ :=
    Option.isSome_iff_exists.mp (by decide +kernel)
  exact ⟨hd, hn, t₁, t₂, h₁, h₂, (host_fixed_iff hd engine).mp hn _ _ t₁ t₂ rfl rfl h₁ h₂⟩

/-- **A path that names the host**, under a route without faults. -/
theorem host_from_path :
    let r : Route := .simple "a" "http://"
    r.Valid ∧ r.isDirect = true ∧ ∀ engine, ∃ t₁ t₂,
      target? r engine "//a.example/x".toList = some t₁ ∧
      target? r engine "//b.example/x".toList = some t₂ ∧
      t₁.authority = some "a.example".toList ∧ t₂.authority = some "b.example".toList := by
  intro r
  have hd : r.isDirect = true := by decide
  have hn : ¬ r.NamesHost := by
    rintro ⟨c, hc, -⟩
    exact absurd hc (by simp [r, Route.simple, Route.destination])
  refine ⟨by decide +kernel, hd, fun engine => ?_⟩
  have ht (p : List Char) := target?_of_slashes hd hn engine p
  exact ⟨_, _, (ht _).trans (by rfl), (ht _).trans (by rfl), rfl, rfl⟩

end Proxy

end EdgeGateway

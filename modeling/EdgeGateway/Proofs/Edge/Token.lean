import Mathlib.Data.List.Forall2
import EdgeGateway.Edge.Filter
import EdgeGateway.Proofs.Http.Readable

/-! # Which token a request has

The token of a request is the one of its authorization header, or else the first value of the token
cookie that is not empty. Cookies are looked at as bytes here, as they come (`cookies`); a readable
line has the cookies of its text (`reads_cookies`). So other cookies do not matter, whatever they
are and wherever they stand, unless one of them makes a line unreadable in which the token stands
(`token_kept`): then all of that line is passed over. -/

namespace EdgeGateway.Edge

open Http HeaderValue Text

/-! ### Cookies as bytes -/

/-- The name and the value of a cookie, before and after the first `=`. -/
def pair? (w : HeaderValue) : Option (HeaderValue × HeaderValue) :=
  if 0x3D ∈ w then some (w.takeWhile (· != 0x3D), (w.dropWhile (· != 0x3D)).drop 1) else none

/-- The cookies of a line: what stands between its semicolons, blanks around it aside, if it has a
name and a value. -/
def cookies (line : HeaderValue) : List (HeaderValue × HeaderValue) :=
  (line.splitOn 0x3B).filterMap fun w => pair? (HeaderValue.trim w)

/-- The values of a cookie in some lines, without the empty ones. -/
def cookieValues (name : String) (lines : List HeaderValue) : List HeaderValue :=
  ((lines.flatMap cookies).filter fun p => p.1 = encode name.toList ∧ p.2 ≠ []).map Prod.snd

variable {v w : HeaderValue} {t : List Char}

theorem pair?_of_not_mem (h : 0x3D ∉ w) : pair? w = none := by
  rw [pair?, if_neg h]

theorem pair?_append_equals (h : 0x3D ∉ w) (v : HeaderValue) :
    pair? (w ++ 0x3D :: v) = some (w, v) := by
  rw [pair?, if_pos (by simp), takeWhile_append_separator h, dropWhile_append_separator h]
  rfl

theorem cookies_of_not_mem (h : 0x3B ∉ w) : cookies w = (pair? (HeaderValue.trim w)).toList := by
  rw [cookies, List.splitOn_eq_singleton h]
  cases hp : pair? (HeaderValue.trim w) <;> simp [hp]

theorem cookies_append_semicolon (v w : HeaderValue) :
    cookies (v ++ 0x3B :: w) = cookies v ++ cookies w := by
  rw [cookies, List.splitOn_append_cons_self, List.filterMap_append]
  rfl

theorem cookieValues_append (name : String) (l₁ l₂ : List HeaderValue) :
    cookieValues name (l₁ ++ l₂) = cookieValues name l₁ ++ cookieValues name l₂ := by
  simp only [cookieValues, List.flatMap_append, List.filter_append, List.map_append]

/-! ### Cookies as texts -/

namespace Filter

theorem splitOnce?_of_not_mem {c : Char} (h : c ∉ t) : splitOnce? c t = none := by
  simp only [splitOnce?, takeWhile_of_not_mem h, List.drop_length]

theorem splitOnce?_append_cons {c : Char} (h : c ∉ t) (rest : List Char) :
    splitOnce? c (t ++ c :: rest) = some (t, rest) := by
  simp only [splitOnce?, takeWhile_append_separator h, List.drop_left]

theorem splitOnce?_eq_some_iff {c : Char} {front rest : List Char} :
    splitOnce? c t = some (front, rest) ↔ t = front ++ c :: rest ∧ c ∉ front := by
  constructor
  · intro h
    by_cases ht : c ∈ t
    · obtain ⟨w, v, rfl, hw⟩ := List.eq_append_cons_of_mem ht
      rw [splitOnce?_append_cons hw] at h
      cases h
      exact ⟨rfl, hw⟩
    · rw [splitOnce?_of_not_mem ht] at h
      cases h
  · rintro ⟨rfl, hfront⟩
    exact splitOnce?_append_cons hfront rest

/-- A cookie of a text is what is read from a cookie of bytes. -/
def Reads (c : List Char × List Char) (p : HeaderValue × HeaderValue) : Prop :=
  text? p.1 = some c.1 ∧ text? p.2 = some c.2

theorem reads_pair? (h : text? w = some t) :
    List.Forall₂ Reads (splitOnce? '=' t).toList (pair? w).toList := by
  by_cases hw : 0x3D ∈ w
  · obtain ⟨n, v, rfl, hn⟩ := List.eq_append_cons_of_mem hw
    obtain ⟨s, rest, rfl, hs, hrest⟩ := exists_text?_append_cons (c := '=') rfl h
    have hs' : '=' ∉ s := not_mem_of_text? (by decide) hs hn
    rw [pair?_append_equals hn, splitOnce?_append_cons hs']
    exact .cons ⟨hs, hrest⟩ .nil
  · rw [pair?_of_not_mem hw, splitOnce?_of_not_mem (not_mem_of_text? (by decide) h hw)]
    exact .nil

theorem cookiePairs_of_not_mem (h : ';' ∉ t) :
    cookiePairs t = (splitOnce? '=' (Text.trim t)).toList := by
  rw [cookiePairs, List.splitOn_eq_singleton h]
  cases hp : splitOnce? '=' (Text.trim t) <;> simp [hp]

theorem cookiePairs_append_semicolon (s t : List Char) :
    cookiePairs (s ++ ';' :: t) = cookiePairs s ++ cookiePairs t := by
  rw [cookiePairs, List.splitOn_append_cons_self, List.filterMap_append]
  rfl

/-- **A readable line has the cookies of its text.** -/
theorem reads_cookies (h : text? v = some t) :
    List.Forall₂ Reads (cookiePairs t) (cookies v) := by
  have hpiece {w : HeaderValue} {s : List Char} (hw : 0x3B ∉ w) (hs : text? w = some s) :
      List.Forall₂ Reads (cookiePairs s) (cookies w) := by
    rw [cookiePairs_of_not_mem (not_mem_of_text? (by decide) hs hw), cookies_of_not_mem hw]
    exact reads_pair? (trim_text hs)
  induction v using split_induction (0x3B : UInt8) generalizing t with
  | last w hw => exact hpiece hw h
  | next w v hw ih =>
    obtain ⟨s, rest, rfl, hs, hrest⟩ := exists_text?_append_cons (c := ';') rfl h
    rw [cookiePairs_append_semicolon, cookies_append_semicolon]
    exact List.rel_append (hpiece hw hs) (ih hrest)

/-- The cookies of the lines that can be read. -/
theorem reads_lines (lines : List HeaderValue) :
    List.Forall₂ Reads ((lines.filterMap text?).flatMap cookiePairs)
      ((lines.filter fun v => v.text?.isSome).flatMap cookies) := by
  induction lines with
  | nil => exact .nil
  | cons v lines ih =>
    cases hv : v.text? with
    | none => simpa [hv] using ih
    | some t =>
      simp only [List.filterMap_cons, hv, List.filter_cons, Option.isSome_some, if_true,
        List.flatMap_cons]
      exact List.rel_append (reads_cookies hv) ih

/-- The first value of a cookie that is not empty has the bytes of the first one of the bytes. -/
theorem find?_of_reads {cs : List (List Char × List Char)}
    {ps : List (HeaderValue × HeaderValue)} (h : List.Forall₂ Reads cs ps) (name : List Char) :
    ((cs.find? fun c => c.1 == name && !c.2.isEmpty).map Prod.snd).map encode =
      ((ps.filter fun p => p.1 = encode name ∧ p.2 ≠ []).map Prod.snd).head? := by
  induction h with
  | nil => rfl
  | @cons c p cs ps hc _ ih =>
    have hname : c.1 = name ↔ p.1 = encode name := eq_iff_of_text? hc.1 name
    have hvalue : c.2 = [] ↔ p.2 = [] := eq_iff_of_text? hc.2 []
    have hfound : (c.1 == name && !c.2.isEmpty) = decide (p.1 = encode name ∧ p.2 ≠ []) := by
      rw [Bool.eq_iff_iff]
      simp [hname, hvalue]
    rw [List.find?_cons, hfound, List.filter_cons]
    cases decide (p.1 = encode name ∧ p.2 ≠ []) with
    | true => exact congrArg some (encode_text hc.2).1
    | false => exact ih

/-- **The token cookie** is looked for in the lines that can be read, and in no others. -/
theorem cookie?_eq (h : Headers) (name : String) : (cookie? h name).map encode =
    (cookieValues name ((h.values "cookie").filter fun v => v.text?.isSome)).head? :=
  find?_of_reads (reads_lines (h.values "cookie")) name.toList

/-! ### Bearer tokens -/

/-- The line has the `Bearer` scheme, in whatever case, and a token. -/
inductive Bears (line token : List Char) : Prop
  | intro {scheme rest : List Char} (hline : Trims line (scheme ++ ' ' :: rest))
      (hscheme : scheme.map Char.toLower = "bearer".toList) (htoken : Trims rest token)
      (hne : token ≠ [])

theorem bearer?_eq_some_iff {line token : List Char} :
    bearer? line = some token ↔ Bears line token := by
  constructor
  · intro h
    obtain ⟨⟨scheme, rest⟩, hsplit, h⟩ := Option.bind_eq_some_iff.mp h
    obtain ⟨hline, -⟩ := splitOnce?_eq_some_iff.mp hsplit
    simp only at h
    split at h
    next hscheme =>
      split at h
      next => cases h
      next hne =>
        cases h
        exact .intro (trims_iff.mpr hline) (beq_iff_eq.mp hscheme) (trims_iff.mpr rfl)
          (by simpa using hne)
    next => cases h
  · rintro @⟨scheme, rest, hline, hscheme, htoken, hne⟩
    have hspace : ' ' ∉ scheme := fun hmem => by
      have hlower : ' '.toLower ∈ scheme.map Char.toLower := List.mem_map_of_mem hmem
      rw [hscheme] at hlower
      exact absurd hlower (by decide)
    rw [bearer?, trims_iff.mp hline, splitOnce?_append_cons hspace, Option.bind_eq_bind,
      Option.bind_some]
    simp only [hscheme, trims_iff.mp htoken, BEq.rfl, if_true, List.isEmpty_iff, hne, if_false]

/-! ### The token of a request -/

/-- The token of the authorization header, or else the first value of the token cookie. -/
def HasToken (f : Filter) (h : Headers) (token : List Char) : Prop :=
  (∃ line, h.text? f.authHeader = some line ∧ Bears line token) ∨
    (∀ line, h.text? f.authHeader = some line → ∀ t, ¬ Bears line t) ∧
      (cookieValues f.config.tokenCookie (h.values "cookie")).head? = some (encode token)

/-- The authorization header has a token, or the first line with a value of the token cookie can be
read. -/
def ShowsToken (f : Filter) (h : Headers) : Prop :=
  (∃ line token, h.text? f.authHeader = some line ∧ Bears line token) ∨
    ((h.values "cookie").find? fun line => cookieValues f.config.tokenCookie [line] ≠ []).all
      fun line => line.text?.isSome

/-- Lines may be passed over before the first one that has a value of the cookie, and after it. -/
theorem head?_cookieValues_filter {name : String} {p : HeaderValue → Bool}
    {lines : List HeaderValue}
    (h : (lines.find? fun line => cookieValues name [line] ≠ []).all p) :
    (cookieValues name (lines.filter p)).head? = (cookieValues name lines).head? := by
  induction lines with
  | nil => rfl
  | cons line lines ih =>
    have hcons : ∀ ls, cookieValues name (line :: ls) =
        cookieValues name [line] ++ cookieValues name ls := cookieValues_append name [line]
    by_cases hnone : cookieValues name [line] = []
    · rw [List.find?_cons_of_neg (by simpa using hnone)] at h
      rw [hcons, hnone, List.nil_append, ← ih h, List.filter_cons]
      split
      next => rw [hcons, hnone, List.nil_append]
      next => rfl
    · rw [List.find?_cons_of_pos (by simpa using hnone), Option.all_some] at h
      rw [List.filter_cons_of_pos h, hcons (lines.filter p), hcons lines,
        List.head?_append_of_ne_nil _ hnone, List.head?_append_of_ne_nil _ hnone]

variable {f : Filter} {h h₁ h₂ : Headers}

/-- **The token of a request**, if it can be seen. -/
theorem ShowsToken.token?_eq_some_iff (hs : f.ShowsToken h) {token : List Char} :
    f.token? h = some token ↔ f.HasToken h token := by
  have hnone (line : List Char) : bearer? line = none ↔ ∀ t, ¬ Bears line t := by
    simp only [Option.eq_none_iff_forall_ne_some, ne_eq, bearer?_eq_some_iff]
  rw [token?, HasToken, Option.or_eq_some_iff, Option.bind_eq_some_iff, Option.bind_eq_none_iff]
  simp only [bearer?_eq_some_iff, hnone]
  refine or_congr_right (and_congr_right fun hmissing => ?_)
  have hshown := hs.resolve_left fun ⟨line, t, hline, ht⟩ => hmissing line hline t ht
  have hencode : Function.Injective encode := fun s t => encode_inj.mp
  rw [← head?_cookieValues_filter hshown, ← cookie?_eq]
  exact ((Option.map_injective hencode).eq_iff (b := some token)).symm

/-- **Other cookies do not matter.** Two requests have the same token if they agree on the
authorization header and on the values of the token cookie, and the token of each can be seen: the
one of the authorization header, or else the first of these values. -/
theorem token_kept (hauth : h₁.values f.authHeader = h₂.values f.authHeader)
    (hcookie : cookieValues f.config.tokenCookie (h₁.values "cookie") =
      cookieValues f.config.tokenCookie (h₂.values "cookie"))
    (hs₁ : f.ShowsToken h₁) (hs₂ : f.ShowsToken h₂) :
    f.token? h₁ = f.token? h₂ ∧ ∀ token, f.token? h₁ = some token ↔ f.HasToken h₁ token := by
  refine ⟨Option.ext fun token => ?_, fun token => hs₁.token?_eq_some_iff⟩
  rw [hs₁.token?_eq_some_iff, hs₂.token?_eq_some_iff, HasToken, HasToken, Headers.text?_eq,
    Headers.text?_eq, hauth, hcookie]

/-- A token behind another cookie, and behind a line of another cookie that cannot be read. -/
theorem token_kept_other_line :
    let f : Filter := ⟨.standard, "authorization", "x-user-id", "x-real-ip", "x-forwarded-for",
      none⟩
    let h₁ : Headers := ⟨[("cookie", "lang=en; access_token=abc".toUTF8.toList)]⟩
    let h₂ : Headers := ⟨[("cookie", "lang=français".toUTF8.toList),
      ("cookie", " access_token=abc ;theme".toUTF8.toList)]⟩
    h₁.values f.authHeader = h₂.values f.authHeader ∧
    cookieValues "access_token" (h₁.values "cookie") =
      cookieValues "access_token" (h₂.values "cookie") ∧
    f.ShowsToken h₁ ∧ f.ShowsToken h₂ ∧ f.token? h₂ = some "abc".toList := by
  intro f h₁ h₂
  have hauth : h₁.values f.authHeader = h₂.values f.authHeader := by decide +kernel
  have hcookie : cookieValues f.config.tokenCookie (h₁.values "cookie") =
      cookieValues f.config.tokenCookie (h₂.values "cookie") := by decide +kernel
  have hs₁ : f.ShowsToken h₁ := .inr (by decide +kernel)
  have hs₂ : f.ShowsToken h₂ := .inr (by decide +kernel)
  obtain ⟨hsame, hspec⟩ := token_kept hauth hcookie hs₁ hs₂
  refine ⟨hauth, hcookie, hs₁, hs₂, ?_⟩
  rw [← hsame, hspec]
  refine .inr ⟨fun line hline => ?_, by decide +kernel⟩
  rw [show h₁.text? f.authHeader = none by decide +kernel] at hline
  cases hline

/-- What is not kept: a token whose line another cookie makes unreadable. -/
theorem token_hidden :
    let f : Filter := ⟨.standard, "authorization", "x-user-id", "x-real-ip", "x-forwarded-for",
      none⟩
    let h₁ : Headers := ⟨[("cookie", "lang=en; access_token=abc".toUTF8.toList)]⟩
    let h₂ : Headers := ⟨[("cookie", "lang=français; access_token=abc".toUTF8.toList)]⟩
    h₁.values f.authHeader = h₂.values f.authHeader ∧
    cookieValues "access_token" (h₁.values "cookie") =
      cookieValues "access_token" (h₂.values "cookie") ∧
    f.token? h₁ = some "abc".toList ∧ f.token? h₂ = none := by
  decide +kernel

end Filter
end EdgeGateway.Edge

import EdgeGateway.Proofs.Route.Codec
import EdgeGateway.Proofs.Route.Pattern
import EdgeGateway.Proofs.Text.Digit
import EdgeGateway.Proofs.Text.Split
import EdgeGateway.Proofs.Text.Trim

/-! # Rules that are written as shortcuts

A shortcut has a name before its first `=` and values between the commas after it
(`Rule.Shortcut`). The values are kept under keys that are made up by number. No two of these keys
are equal (`generatedKey_inj`), so no value takes the place of another: whatever the order of the
keys, the rule has just the values of the shortcut, each as often as it was written there
(`shortcut_kept`). -/

namespace EdgeGateway.Rule

open Text

/-! ### What a shortcut says -/

/-- The values between the commas of a text: without the blanks around them, and without those that
are blank. -/
inductive Pieces : List Char → List (List Char) → Prop
  | blank {t : List Char} (h : ',' ∉ t) (ht : Trims t []) : Pieces t []
  | value {t v : List Char} (h : ',' ∉ t) (ht : Trims t v) (hv : v ≠ []) : Pieces t [v]
  | comma {t rest : List Char} {vs ws : List (List Char)} (h : ',' ∉ t) (ht : Pieces t vs)
      (hrest : Pieces rest ws) : Pieces (t ++ ',' :: rest) (vs ++ ws)

/-- The name and the values of a shortcut; one without an `=` has no values. -/
inductive Shortcut : List Char → List Char → List (List Char) → Prop
  | bare {t name : List Char} (h : '=' ∉ t) (hname : Trims t name) : Shortcut t name []
  | values {t rest name : List Char} {vs : List (List Char)} (h : '=' ∉ t) (hname : Trims t name)
      (hrest : Pieces rest vs) : Shortcut (t ++ '=' :: rest) name vs

variable {t rest name : List Char} {vs : List (List Char)}

/-! ### Values -/

theorem shortcutValues_of_not_mem (h : ',' ∉ t) :
    shortcutValues t = if trim t = [] then [] else [trim t] := by
  unfold shortcutValues
  rw [List.splitOn_eq_singleton h]
  cases hv : trim t <;> simp [hv]

theorem shortcutValues_append_comma (t rest : List Char) :
    shortcutValues (t ++ ',' :: rest) = shortcutValues t ++ shortcutValues rest := by
  unfold shortcutValues
  rw [List.splitOn_append_cons_self, List.map_append, List.filter_append]

theorem Pieces.shortcutValues_eq (h : Pieces t vs) : shortcutValues t = vs := by
  induction h with
  | blank h ht => rw [shortcutValues_of_not_mem h, if_pos (trims_iff.mp ht)]
  | value h ht hv => rw [shortcutValues_of_not_mem h, trims_iff.mp ht, if_neg hv]
  | comma h ht hrest iht ihrest => rw [shortcutValues_append_comma, iht, ihrest]

theorem exists_pieces (t : List Char) : ∃ vs, Pieces t vs := by
  have hlast (t : List Char) (ht : ',' ∉ t) : ∃ vs, Pieces t vs := by
    by_cases hv : trim t = []
    · exact ⟨[], .blank ht (trims_iff.mpr hv)⟩
    · exact ⟨[trim t], .value ht (trims_iff.mpr rfl) hv⟩
  induction t using split_induction ',' with
  | last t ht => exact hlast t ht
  | next t rest ht ih =>
    obtain ⟨vs, hvs⟩ := hlast t ht
    obtain ⟨ws, hws⟩ := ih
    exact ⟨vs ++ ws, .comma ht hvs hws⟩

/-! ### Names -/

theorem shortcutParts_of_not_mem (h : '=' ∉ t) : shortcutParts t = (trim t, []) := by
  unfold shortcutParts
  rw [takeWhile_of_not_mem h, dropWhile_of_not_mem h]
  rfl

theorem shortcutParts_append (h : '=' ∉ t) (rest : List Char) :
    shortcutParts (t ++ '=' :: rest) = (trim t, rest) := by
  unfold shortcutParts
  rw [takeWhile_append_separator h, dropWhile_append_separator h]
  rfl

theorem Shortcut.parts_eq (h : Shortcut t name vs) :
    (shortcutParts t).1 = name ∧ shortcutValues (shortcutParts t).2 = vs := by
  cases h with
  | bare h hname =>
    rw [shortcutParts_of_not_mem h]
    exact ⟨trims_iff.mp hname, rfl⟩
  | values h hname hrest =>
    rw [shortcutParts_append h]
    exact ⟨trims_iff.mp hname, hrest.shortcutValues_eq⟩

theorem exists_shortcut (t : List Char) : ∃ name vs, Shortcut t name vs := by
  by_cases ht : '=' ∈ t
  · obtain ⟨front, rest, rfl, hfront⟩ := List.eq_append_cons_of_mem ht
    obtain ⟨vs, hvs⟩ := exists_pieces rest
    exact ⟨_, vs, .values hfront (trims_iff.mpr rfl) hvs⟩
  · exact ⟨_, [], .bare ht (trims_iff.mpr rfl)⟩

/-! ### Keys -/

theorem generatedKey_inj {i j : Nat} : generatedKey i = generatedKey j ↔ i = j := by
  have hkey (i : Nat) : (generatedKey i).toList = "_genkey_".toList ++ Nat.toDigits 10 i := by
    show ("_genkey_" ++ i.repr).toList = _
    rw [String.toList_append, Nat.toList_repr]
  rw [← String.toList_inj, hkey, hkey, List.append_cancel_left_eq,
    toDigits_inj (by decide) (by decide)]

/-- The entries of a shortcut with these values. -/
def generatedEntries (vs : List (List Char)) : List (String × String) :=
  vs.mapIdx fun i v => (generatedKey i, String.ofList v)

theorem nodup_generatedEntries (vs : List (List Char)) :
    ((generatedEntries vs).map Prod.fst).Nodup := by
  unfold generatedEntries List.Nodup
  rw [List.pairwise_iff_getElem]
  intro i j hi hj hlt
  rw [List.getElem_map, List.getElem_map, List.getElem_mapIdx, List.getElem_mapIdx, Ne,
    generatedKey_inj]
  exact Nat.ne_of_lt hlt

theorem values_generatedEntries (vs : List (List Char)) :
    (generatedEntries vs).map Prod.snd = vs.map String.ofList := by
  refine List.ext_getElem (by simp [generatedEntries]) fun i hi hi' => ?_
  simp [generatedEntries]

/-! ### Rules -/

theorem ofShortcut?_eq {t : String} (h : Shortcut t.toList name vs) : ofShortcut? t =
    if name = [] then none
    else some ⟨String.ofList name, .ofList (generatedEntries vs)⟩ := by
  obtain ⟨hname, hvs⟩ := h.parts_eq
  unfold ofShortcut?
  simp only [hname, hvs, List.isEmpty_iff]
  rfl

theorem acceptsPath_iff_mem_values (r : Rule) (path : String) :
    r.acceptsPath path = true ↔ ∃ v ∈ r.values, Pattern.Matches v path := by
  unfold acceptsPath
  simp only [List.any_eq_true, Pattern.accepts_ofText_iff]

/-- A route with a single `Path` rule matches what one of the values of that rule matches. -/
theorem matchesPath_of_values {r : Rule} (hname : IsPathName r.name)
    (hvs : r.values.Perm (vs.map String.ofList)) {route : Route} (hroute : route.predicates = [r])
    (path : String) :
    route.matchesPath path = true ↔ ∃ v ∈ vs, Pattern.Matches (String.ofList v) path := by
  have hmem (p : String → Prop) : (∃ v ∈ r.values, p v) ↔ ∃ v ∈ vs, p (String.ofList v) := by
    simp only [hvs.mem_iff, List.mem_map, exists_exists_and_eq_and]
  unfold Route.matchesPath
  rw [hroute, List.filter_cons_of_pos (r.isPath_iff.mpr hname), List.filter_nil, List.any_cons,
    List.any_nil, Bool.or_false, acceptsPath_iff_mem_values, hmem]

/-- **A shortcut loses nothing.** Every text has a name and values, and it is a rule just if the
name is not empty. The rule has that name and just those values, each as often as it was written,
and is read back from its JSON text. A route with this rule alone, if it is a `Path` rule, matches
the paths that one of the values matches, and so does the route that is read back. -/
theorem shortcut_kept (t : String) :
    (∃ name vs, Shortcut t.toList name vs) ∧
    ∀ name vs, Shortcut t.toList name vs →
      (ofShortcut? t = none ↔ name = []) ∧
      ∀ r, ofShortcut? t = some r →
        r.name = String.ofList name ∧ r.values.Perm (vs.map String.ofList) ∧
        Decode.document (ofTree 0) r.toTree.compress.toUTF8 = .ok r ∧
        (IsPathName r.name → ∀ route : Route, route.predicates = [r] →
          ∃ route', Route.decode route.encode.toUTF8 = .ok route' ∧ ∀ path,
            (route.matchesPath path = true ↔ ∃ v ∈ vs, Pattern.Matches (String.ofList v) path) ∧
            (route'.matchesPath path = true ↔
              ∃ v ∈ vs, Pattern.Matches (String.ofList v) path)) := by
  refine ⟨exists_shortcut t.toList, fun name vs h => ?_⟩
  rw [ofShortcut?_eq h]
  by_cases hname : name = []
  · rw [if_pos hname]
    exact ⟨⟨fun _ => hname, fun _ => rfl⟩, fun r hr => nomatch hr⟩
  rw [if_neg hname]
  refine ⟨⟨fun hr => (nomatch hr), fun hn => absurd hn hname⟩, ?_⟩
  rintro r ⟨⟩
  have hvalues := KeyMap.values_ofList_perm (nodup_generatedEntries vs)
  rw [values_generatedEntries] at hvalues
  refine ⟨rfl, hvalues, ?_, fun hpath route hroute => ?_⟩
  · rw [Decode.document_compress _ (isWritable_toTree _)]
    exact ofTree_toTree _ (by decide)
  · refine ⟨route, route.decode_encode, fun path => ?_⟩
    have hmatch := matchesPath_of_values (r := ⟨_, _⟩) hpath hvalues hroute path
    exact ⟨hmatch, hmatch⟩

/-- Eleven values, with a blank one among them and an `=` in the last, and the route of their
rule. -/
theorem shortcut_kept_eleven :
    let t := " path=/0,/1,/2,/3,/4,/5,/6,/7,/8,/9,, /k=v/* "
    ∃ vs r, Shortcut t.toList "path".toList vs ∧ vs.length = 11 ∧ ofShortcut? t = some r ∧
      r.values.Perm (vs.map String.ofList) ∧
      ∃ route', Route.decode
          (Route.encode { Route.simple "a" "lb://a" with predicates := [r] }).toUTF8 = .ok route' ∧
        route'.matchesPath "/k=v/x" = true := by
  intro t
  obtain ⟨⟨name, vs, h⟩, hkept⟩ := shortcut_kept t
  obtain ⟨hname, hvs⟩ := h.parts_eq
  obtain rfl : "path".toList = name := by
    rw [← hname]
    decide +kernel
  have hsome : (ofShortcut? t).isSome := by decide +kernel
  obtain ⟨r, hr⟩ := Option.isSome_iff_exists.mp hsome
  obtain ⟨hrname, hvalues, -, hroute⟩ := (hkept _ vs h).2 r hr
  have hpath : IsPathName r.name := by
    rw [← r.isPath_iff, isPath, hrname]
    decide +kernel
  obtain ⟨route', hdecode, hmatch⟩ :=
    hroute hpath { Route.simple "a" "lb://a" with predicates := [r] } rfl
  refine ⟨vs, r, h, ?_, hr, hvalues, route', hdecode, ?_⟩
  · rw [← hvs]
    decide +kernel
  · obtain ⟨hbefore, hafter⟩ := hmatch "/k=v/x"
    rw [hafter, ← hbefore]
    have hrun : (ofShortcut? t).any fun r =>
        Route.matchesPath { Route.simple "a" "lb://a" with predicates := [r] } "/k=v/x" := by
      decide +kernel
    rwa [hr] at hrun

end EdgeGateway.Rule

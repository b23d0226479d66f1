import Mathlib.Data.List.Forall2
import Mathlib.Tactic.SplitIfs
import EdgeGateway.Proofs.KeyMap
import EdgeGateway.Proofs.Text.Split
import EdgeGateway.Route.Basic

/-! # The language of path patterns

A pattern accepts a path if the segments of the path can be cut into blocks, one for each segment of
the pattern, that those may take (`Pattern.Matches`): `**` takes any block, and any other segment
takes a block of one. The reader of patterns tries the ends of a path one after the other, and finds
a cut wherever there is one (`Pattern.accepts_iff`). A slash only ends a segment
(`pathSegments_append_slash`), so it never matters where slashes lead, trail or repeat. -/

namespace EdgeGateway

/-! ### Segments -/

theorem pathSegments_append_slash (a b : String) :
    pathSegments (a ++ "/" ++ b) = pathSegments a ++ pathSegments b := by
  unfold pathSegments
  have hl : (a ++ "/" ++ b).toList = a.toList ++ '/' :: b.toList := by
    rw [String.toList_append, String.toList_append, List.append_assoc]
    rfl
  rw [hl, List.splitOn_append_cons_self, List.filter_append]

namespace Pattern

/-! ### Blocks -/

/-- The blocks of path segments that a segment of a pattern may take. -/
inductive Takes : List Char → List (List Char) → Prop
  | anyNumber (block : List (List Char)) : Takes ['*', '*'] block
  | anyOne (s : List Char) : Takes ['*'] [s]
  | equal (s : List Char) : Takes s [s]

/-- The segments of the path can be cut into blocks that the segments of the pattern may take. -/
def Matches (pattern path : String) : Prop :=
  ∃ blocks, List.Forall₂ Takes (pathSegments pattern) blocks ∧ blocks.flatten = pathSegments path

theorem takes_anyOne_iff {block : List (List Char)} :
    Takes ['*'] block ↔ ∃ s, block = [s] := by
  constructor
  · rintro (_ | s | s)
    · exact ⟨s, rfl⟩
    · exact ⟨_, rfl⟩
  · rintro ⟨s, rfl⟩
    exact .anyOne s

theorem takes_literal_iff {s : List Char} (hmany : s ≠ ['*', '*']) (hone : s ≠ ['*'])
    {block : List (List Char)} : Takes s block ↔ block = [s] := by
  constructor
  · rintro (_ | _ | _)
    · exact absurd rfl hmany
    · exact absurd rfl hone
    · rfl
  · rintro rfl
    exact .equal s

/-- A cut begins with the block of the first segment. -/
theorem exists_cut_cons {s : List Char} {ps path : List (List Char)} :
    (∃ blocks, List.Forall₂ Takes (s :: ps) blocks ∧ blocks.flatten = path) ↔
      ∃ block rest, path = block ++ rest ∧ Takes s block ∧
        ∃ blocks, List.Forall₂ Takes ps blocks ∧ blocks.flatten = rest := by
  constructor
  · rintro ⟨_, hb, rfl⟩
    obtain ⟨block, blocks, hs, hps, rfl⟩ := List.forall₂_cons_left_iff.mp hb
    exact ⟨block, blocks.flatten, List.flatten_cons, hs, blocks, hps, rfl⟩
  · rintro ⟨block, _, rfl, hs, blocks, hps, rfl⟩
    exact ⟨block :: blocks, .cons hs hps, List.flatten_cons⟩

/-- **The reader of patterns finds a cut wherever there is one.** -/
theorem accepts_iff (ps path : List (List Char)) :
    accepts (ps.map Segment.ofChars) path = true ↔
      ∃ blocks, List.Forall₂ Takes ps blocks ∧ blocks.flatten = path := by
  -- along the pattern, for all paths: each kind of segment leaves another end of the path
  induction ps generalizing path with
  | nil =>
    rw [List.map_nil, accepts, List.isEmpty_iff]
    constructor
    · rintro rfl
      exact ⟨[], .nil, rfl⟩
    · rintro ⟨_, hb, rfl⟩
      obtain rfl := List.forall₂_nil_left_iff.mp hb
      rfl
  | cons s ps ih =>
    rw [exists_cut_cons, List.map_cons]
    by_cases hmany : s = ['*', '*']
    · subst hmany
      rw [show Segment.ofChars ['*', '*'] = .anyNumber from rfl, accepts, anySuffix_iff]
      constructor
      · rintro ⟨block, rest, hp, h⟩
        exact ⟨block, rest, hp, Takes.anyNumber block, (ih rest).mp h⟩
      · rintro ⟨block, rest, hp, -, h⟩
        exact ⟨block, rest, hp, (ih rest).mpr h⟩
    by_cases hone : s = ['*']
    · subst hone
      rw [show Segment.ofChars ['*'] = .anyOne from rfl]
      constructor
      · intro h
        match path, h with
        | head :: tail, h => exact ⟨[head], tail, rfl, .anyOne head, (ih tail).mp h⟩
      · rintro ⟨_, rest, rfl, hs, h⟩
        obtain ⟨head, rfl⟩ := takes_anyOne_iff.mp hs
        exact (ih rest).mpr h
    · have hlit : Segment.ofChars s = .literal s := by
        unfold Segment.ofChars
        rw [if_neg hmany, if_neg hone]
      rw [hlit]
      constructor
      · intro h
        match path, h with
        | head :: tail, h =>
          simp only [accepts, Bool.and_eq_true, beq_iff_eq] at h
          obtain ⟨rfl, h⟩ := h
          exact ⟨[s], tail, rfl, .equal s, (ih tail).mp h⟩
      · rintro ⟨_, rest, rfl, hs, h⟩
        obtain rfl := (takes_literal_iff hmany hone).mp hs
        simp only [List.singleton_append, accepts, beq_self_eq_true, Bool.true_and]
        exact (ih rest).mpr h

theorem accepts_ofText_iff (pattern path : String) :
    (ofText pattern).accepts (pathSegments path) = true ↔ Matches pattern path :=
  accepts_iff _ _

end Pattern

/-! ### Path rules -/

namespace Rule

/-- The text is `Path`, each letter in either case. -/
def IsPathName (name : String) : Prop :=
  List.Forall₂ (· ∈ ·) name.toList [['P', 'p'], ['A', 'a'], ['T', 't'], ['H', 'h']]

theorem toNat_toLower (c : Char) :
    c.toLower.toNat = if 65 ≤ c.toNat ∧ c.toNat ≤ 90 then c.toNat + 32 else c.toNat := by
  unfold Char.toLower
  by_cases h : 65 ≤ c.val ∧ c.val ≤ 90
  · have hle : c.val.toNat ≤ 90 := UInt32.le_iff_toNat_le.mp h.2
    have hadd : (c.val + 32).toNat = c.val.toNat + 32 := by
      rw [UInt32.toNat_add, show (32 : UInt32).toNat = 32 from rfl]
      exact Nat.mod_eq_of_lt (by omega)
    exact (congrArg Char.toNat (dif_pos h)).trans (hadd.trans (if_pos h).symm)
  · exact (congrArg Char.toNat (dif_neg h)).trans (if_neg h).symm

/-- Only the two cases of a letter are lowered to it. -/
theorem toLower_eq_iff {c u l : Char} (hu : 65 ≤ u.toNat ∧ u.toNat ≤ 90)
    (hl : l.toNat = u.toNat + 32) : c.toLower = l ↔ c ∈ [u, l] := by
  rw [List.mem_pair, ← Char.toNat_inj, ← Char.toNat_inj, ← Char.toNat_inj, toNat_toLower]
  split_ifs <;> omega

theorem isPath_iff (r : Rule) : r.isPath = true ↔ IsPathName r.name := by
  have hp (c : Char) : c.toLower = 'p' ↔ c ∈ ['P', 'p'] := toLower_eq_iff (by decide) (by decide)
  have ha (c : Char) : c.toLower = 'a' ↔ c ∈ ['A', 'a'] := toLower_eq_iff (by decide) (by decide)
  have ht (c : Char) : c.toLower = 't' ↔ c ∈ ['T', 't'] := toLower_eq_iff (by decide) (by decide)
  have hh (c : Char) : c.toLower = 'h' ↔ c ∈ ['H', 'h'] := toLower_eq_iff (by decide) (by decide)
  unfold isPath IsPathName
  rw [beq_iff_eq, ← List.forall₂_eq_eq_eq, List.forall₂_map_left_iff]
  simp only [List.forall₂_cons_right_iff, List.forall₂_nil_right_iff, hp, ha, ht, hh]

theorem acceptsPath_iff (r : Rule) (path : String) : r.acceptsPath path = true ↔
    ∃ k v, r.args.get? k = some v ∧ Pattern.Matches v path := by
  unfold acceptsPath
  rw [List.any_eq_true]
  constructor
  · rintro ⟨v, hv, h⟩
    obtain ⟨k, hk⟩ := r.args.mem_values_iff.mp hv
    exact ⟨k, v, hk, (Pattern.accepts_ofText_iff v path).mp h⟩
  · rintro ⟨k, v, hk, h⟩
    exact ⟨v, r.args.mem_values_iff.mpr ⟨k, hk⟩, (Pattern.accepts_ofText_iff v path).mpr h⟩

end Rule

/-- **A route accepts exactly the paths that a pattern of its `Path` rules matches**, by the cut of
the path into blocks; slashes that lead, trail or repeat make no difference to the segments. -/
theorem Route.accepts_exactly (r : Route) (pattern path : String) :
    ((Pattern.ofText pattern).accepts (pathSegments path) = true ↔
      Pattern.Matches pattern path) ∧
    (r.matchesPath path = true ↔ ∃ p ∈ r.predicates, Rule.IsPathName p.name ∧
      ∃ k v, p.args.get? k = some v ∧ Pattern.Matches v path) ∧
    ∀ a b, pathSegments ("/" ++ a) = pathSegments a ∧ pathSegments (a ++ "/") = pathSegments a ∧
      pathSegments (a ++ "//" ++ b) = pathSegments (a ++ "/" ++ b) := by
  refine ⟨Pattern.accepts_ofText_iff pattern path, ?_, fun a b => ⟨?_, ?_, ?_⟩⟩
  · unfold matchesPath
    simp only [List.any_eq_true, List.mem_filter, Rule.isPath_iff, Rule.acceptsPath_iff, and_assoc]
  · exact pathSegments_append_slash "" a
  · rw [← String.append_empty (s := a ++ "/"), pathSegments_append_slash]
    exact List.append_nil _
  · have h : a ++ "//" ++ b = a ++ "/" ++ ("" ++ "/" ++ b) := by
      rw [show "//" = "/" ++ ("" ++ "/") from rfl]
      simp only [String.append_assoc]
    rw [h, pathSegments_append_slash, pathSegments_append_slash, pathSegments_append_slash]
    rfl

example : (Pattern.ofText "/**/b/**/*").accepts (pathSegments "//a/b/b/") = true ∧
    (Pattern.ofText "/**/b/**/*").accepts (pathSegments "/a/b") = false := by
  decide +kernel

end EdgeGateway

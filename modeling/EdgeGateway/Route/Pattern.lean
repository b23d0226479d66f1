/-!
# Path patterns

A pattern and a path are both cut at `/`, and empty segments are dropped, so leading, trailing and
repeated slashes never matter. In a pattern `**` takes any number of path segments and `*` takes
one; any other segment takes one that equals it.
-/

namespace EdgeGateway

/-- The segments of a path that are not empty. -/
def pathSegments (path : String) : List (List Char) :=
  (path.toList.splitOn '/').filter fun s => !s.isEmpty

namespace Pattern

/-- A segment of a pattern. -/
inductive Segment
  | anyNumber
  | anyOne
  | literal (s : List Char)
  deriving DecidableEq, Inhabited

def Segment.ofChars (s : List Char) : Segment :=
  if s = ['*', '*'] then .anyNumber else if s = ['*'] then .anyOne else .literal s

end Pattern

/-- A pattern by its segments. -/
abbrev Pattern := List Pattern.Segment

namespace Pattern

/-- Reads a pattern. -/
def ofText (text : String) : Pattern := (pathSegments text).map Segment.ofChars

/-- Some end of the list, the whole list and the empty one included, satisfies `f`. -/
def anySuffix {α : Type} (f : List α → Bool) : List α → Bool
  | [] => f []
  | a :: l => f (a :: l) || anySuffix f l

/-- The segments of a path are taken, in order, by those of the pattern. -/
def accepts : Pattern → List (List Char) → Bool
  | [], path => path.isEmpty
  | .anyNumber :: rest, path => anySuffix (accepts rest) path
  | .anyOne :: rest, path =>
    match path with
    | [] => false
    | _ :: tail => accepts rest tail
  | .literal s :: rest, path =>
    match path with
    | [] => false
    | head :: tail => s == head && accepts rest tail

theorem anySuffix_iff {α : Type} {f : List α → Bool} {l : List α} :
    anySuffix f l = true ↔ ∃ pre post, l = pre ++ post ∧ f post = true := by
  induction l with
  | nil =>
    constructor
    · exact fun h => ⟨[], [], rfl, h⟩
    · rintro ⟨pre, post, hl, h⟩
      obtain ⟨-, rfl⟩ := List.append_eq_nil_iff.1 hl.symm
      exact h
  | cons a l ih =>
    simp only [anySuffix, Bool.or_eq_true, ih]
    constructor
    · rintro (h | ⟨pre, post, rfl, h⟩)
      · exact ⟨[], a :: l, rfl, h⟩
      · exact ⟨a :: pre, post, rfl, h⟩
    · rintro ⟨_ | ⟨b, pre⟩, post, hl, h⟩
      · exact .inl (hl ▸ h)
      · obtain ⟨rfl, rfl⟩ := List.cons.inj hl
        exact .inr ⟨pre, post, rfl, h⟩

end Pattern
end EdgeGateway

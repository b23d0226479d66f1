import Mathlib.Data.List.TakeWhile

/-! # Lists with separators

A list is cut at an element that separates: it is without that element, or it goes on after the
first one (`split_induction`). What stands before the first one and after it is found by looking for
it (`takeWhile_append_separator`, `dropWhile_append_separator`). -/

namespace EdgeGateway.Text

variable {α : Type} [BEq α] [LawfulBEq α] {a : α} {v w : List α}

/-- A list is without the separator, or it goes on after the first one. -/
theorem split_induction (a : α) {P : List α → Prop} (last : ∀ w, a ∉ w → P w)
    (next : ∀ w v, a ∉ w → P v → P (w ++ a :: v)) (v : List α) : P v := by
  by_cases hv : a ∈ v
  · obtain ⟨w, rest, heq, hw⟩ := List.eq_append_cons_of_mem hv
    have hlt : rest.length < v.length := by
      rw [heq, List.length_append, List.length_cons]
      omega
    rw [heq]
    exact next w rest hw (split_induction a last next rest)
  · exact last v hv
termination_by v.length

theorem forall_bne (h : a ∉ w) : ∀ b ∈ w, (b != a) = true := by
  intro b hb
  rw [bne_iff_ne]
  rintro rfl
  exact h hb

theorem takeWhile_of_not_mem (h : a ∉ w) : w.takeWhile (· != a) = w :=
  List.takeWhile_eq_self_iff.mpr (forall_bne h)

theorem takeWhile_append_separator (h : a ∉ w) (v : List α) :
    (w ++ a :: v).takeWhile (· != a) = w := by
  rw [List.takeWhile_append_of_pos (forall_bne h), List.takeWhile_cons_of_neg (by simp),
    List.append_nil]

theorem dropWhile_of_not_mem (h : a ∉ w) : w.dropWhile (· != a) = [] :=
  List.dropWhile_eq_nil_iff.mpr (forall_bne h)

theorem dropWhile_append_separator (h : a ∉ w) (v : List α) :
    (w ++ a :: v).dropWhile (· != a) = a :: v := by
  rw [List.dropWhile_append_of_pos (forall_bne h), List.dropWhile_cons_of_neg (by simp)]

end EdgeGateway.Text

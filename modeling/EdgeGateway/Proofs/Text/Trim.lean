import Mathlib.Data.List.DropRight
import Mathlib.Data.List.TakeWhile
import EdgeGateway.Text.Blank

/-! # What is left without the ends

Texts are trimmed of blanks, and header values of their blank bytes, in one way: the elements at
both ends are left out as long as they are of one kind (`strip`). What is put around a list of that
kind does not count (`strip_append_left`, `strip_append_right`), and nothing else is left out
(`exists_eq_strip`). So the trimmed text is the one that stands between blanks and has none at its
ends (`trims_iff`). -/

namespace EdgeGateway.Text

/-! ### Lists without their ends -/

section

variable {α : Type} {p : α → Bool} {s e v w : List α}

/-- A list without the elements at its two ends that satisfy `p`. -/
def strip (p : α → Bool) (v : List α) : List α := (v.dropWhile p).rdropWhile p

theorem strip_append_left (hs : s.all p) (v : List α) : strip p (s ++ v) = strip p v := by
  unfold strip
  rw [List.dropWhile_append_of_pos (List.all_eq_true.mp hs)]

theorem rdropWhile_append (he : e.all p) (v : List α) :
    (v ++ e).rdropWhile p = v.rdropWhile p := by
  have hrev : ∀ a ∈ e.reverse, p a = true := fun a ha =>
    List.all_eq_true.mp he a (List.mem_reverse.mp ha)
  unfold List.rdropWhile
  rw [List.reverse_append, List.dropWhile_append_of_pos hrev]

theorem strip_append_right (he : e.all p) (v : List α) : strip p (v ++ e) = strip p v := by
  unfold strip
  rw [List.dropWhile_append]
  split
  next hv =>
    have hdrop : e.dropWhile p = [] := List.dropWhile_eq_nil_iff.mpr (List.all_eq_true.mp he)
    rw [hdrop, List.isEmpty_iff.mp hv]
  next => exact rdropWhile_append he _

/-- Only elements that satisfy `p` are left out. -/
theorem exists_eq_strip (p : α → Bool) (v : List α) :
    ∃ s e, s.all p ∧ e.all p ∧ v = s ++ (strip p v ++ e) := by
  refine ⟨v.takeWhile p, (v.dropWhile p).rtakeWhile p, ?_, ?_, ?_⟩
  · exact List.all_takeWhile
  · exact List.all_eq_true.mpr fun a ha => List.mem_rtakeWhile_imp ha
  · rw [strip, List.rdropWhile_append_rtakeWhile, List.takeWhile_append_dropWhile]

theorem strip_eq_nil_iff : strip p v = [] ↔ v.all p := by
  constructor
  · intro h
    obtain ⟨s, e, hs, he, hv⟩ := exists_eq_strip p v
    rw [hv, h, List.nil_append, List.all_append, hs, he]
    rfl
  · exact fun h => strip_append_right h []

/-- Neither end of the list satisfies `p`. -/
structure Bare (p : α → Bool) (w : List α) : Prop where
  head : ∀ a ∈ w.head?, p a = false
  last : ∀ a ∈ w.getLast?, p a = false

theorem bare_of_forall (h : ∀ a ∈ w, p a = false) : Bare p w :=
  ⟨fun a ha => h a (List.mem_of_mem_head? ha), fun a ha => h a (List.mem_of_getLast? ha)⟩

theorem Bare.strip_eq (h : Bare p w) : strip p w = w := by
  have hdrop : w.dropWhile p = w := by
    cases w with
    | nil => rfl
    | cons a w => rw [List.dropWhile_cons_of_neg (by simp [h.head a rfl])]
  unfold strip
  rw [hdrop, List.rdropWhile_eq_self_iff]
  intro hne
  rw [h.last _ (List.getLast?_eq_some_getLast hne)]
  exact Bool.false_ne_true

theorem bare_strip (p : α → Bool) (v : List α) : Bare p (strip p v) := by
  refine ⟨fun a ha => ?_, fun a ha => ?_⟩
  · have hdrop : a ∈ (v.dropWhile p).head? := by
      obtain ⟨t, ht⟩ := List.rdropWhile_prefix p (v.dropWhile p)
      rw [← ht, List.head?_append, show (List.rdropWhile p _).head? = some a from ha]
      rfl
    have hnot := List.head?_dropWhile_not p v
    rw [show (v.dropWhile p).head? = some a from hdrop] at hnot
    simpa using hnot
  · obtain ⟨hne, hlast⟩ := List.mem_getLast?_eq_getLast ha
    rw [hlast, ← Bool.not_eq_true]
    exact List.rdropWhile_last_not p (v.dropWhile p) hne

/-- What stands after a list with bare ends loses elements at its own end only. -/
theorem Bare.exists_strip_append (h : Bare p v) (hv : v ≠ []) (w : List α) :
    ∃ t, strip p (v ++ w) = v ++ t := by
  obtain ⟨e, he, hw⟩ : ∃ e, e.all p ∧ w = w.rdropWhile p ++ e :=
    ⟨w.rtakeWhile p, List.all_eq_true.mpr fun a ha => List.mem_rtakeWhile_imp ha,
      (List.rdropWhile_append_rtakeWhile ..).symm⟩
  refine ⟨w.rdropWhile p, ?_⟩
  have hbare : Bare p (v ++ w.rdropWhile p) := by
    refine ⟨fun a ha => ?_, fun a ha => ?_⟩
    · rw [List.head?_append_of_ne_nil _ hv] at ha
      exact h.head a ha
    · rw [List.getLast?_append] at ha
      cases hlast : (w.rdropWhile p).getLast? with
      | none => exact h.last a (by simpa [hlast] using ha)
      | some b =>
        obtain rfl : b = a := by simpa [hlast] using ha
        obtain ⟨hne, hb⟩ := List.mem_getLast?_eq_getLast hlast
        rw [hb, ← Bool.not_eq_true]
        exact List.rdropWhile_last_not p w hne
  conv_lhs => rw [hw, ← List.append_assoc, strip_append_right he, hbare.strip_eq]

end

/-! ### Texts -/

theorem trim_eq_strip (cs : List Char) : trim cs = strip isBlank cs := rfl

/-- The text `w` is `cs` without the blanks around it. -/
structure Trims (cs w : List Char) : Prop where
  around : ∃ s e, s.all isBlank ∧ e.all isBlank ∧ cs = s ++ (w ++ e)
  bare : Bare isBlank w

/-- **A text is trimmed** to what stands between blanks and has none at its ends. -/
theorem trims_iff {cs w : List Char} : Trims cs w ↔ trim cs = w := by
  constructor
  · rintro ⟨⟨s, e, hs, he, rfl⟩, hbare⟩
    have hstrip := strip_append_left hs (w ++ e)
    rw [strip_append_right he, hbare.strip_eq] at hstrip
    exact hstrip
  · rintro rfl
    exact ⟨exists_eq_strip isBlank cs, bare_strip isBlank cs⟩

end EdgeGateway.Text

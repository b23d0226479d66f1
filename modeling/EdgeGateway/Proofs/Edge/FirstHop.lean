import EdgeGateway.Edge.Client
import EdgeGateway.Proofs.Net.Address
import EdgeGateway.Proofs.Text.Split
import EdgeGateway.Proofs.Text.Trim

/-! # The first hop of a chain

A chain is read up to its first comma. A chain that begins with an address is still read as that
address after more hops were put at its end (`beginsWith_trim_append`), and after it was sanitized
and cut (`BeginsWith.firstHop_sanitize`): an address is short, so the cut comes after it. -/

namespace EdgeGateway.Edge

open Http Text

variable {a t : List Char}

/-! ### Chains -/

theorem not_mem_of_parse? {x : Address} (ha : Address.parse? a = some x) : ',' ∉ a := fun hmem =>
  absurd (Address.isAddressChar_of_parse? ha _ hmem) (by decide)

theorem bare_of_parse? {x : Address} (ha : Address.parse? a = some x) : Bare isBlank a :=
  bare_of_forall fun c hc =>
    Address.isBlank_of_isAddressChar (Address.isAddressChar_of_parse? ha c hc)

theorem ne_nil_of_parse? {x : Address} (ha : Address.parse? a = some x) : a ≠ [] := by
  rintro rfl
  cases ha

theorem firstHop_of_not_mem (h : ',' ∉ t) : firstHop t = trim t := by
  rw [firstHop, takeWhile_of_not_mem h]

theorem firstHop_append_comma (h : ',' ∉ t) (rest : List Char) :
    firstHop (t ++ ',' :: rest) = trim t := by
  rw [firstHop, takeWhile_append_separator h]

theorem firstHop_of_blank (h : t.all isBlank) : firstHop t = [] :=
  strip_eq_nil_iff.mpr <| List.all_eq_true.mpr fun c hc =>
    List.all_eq_true.mp h c ((List.takeWhile_sublist _).mem hc)

/-- A text that is one address is a chain of one hop. -/
theorem firstHop_of_parse?_trim {x : Address} (ha : Address.parse? (trim t) = some x) :
    firstHop t = trim t := by
  refine firstHop_of_not_mem fun hmem => ?_
  obtain ⟨s, e, hs, he, ht⟩ := (trims_iff.mpr rfl : Trims t (trim t)).around
  rw [ht, List.mem_append, List.mem_append] at hmem
  rcases hmem with hmem | hmem | hmem
  · exact absurd (List.all_eq_true.mp hs _ hmem) (by decide)
  · exact not_mem_of_parse? ha hmem
  · exact absurd (List.all_eq_true.mp he _ hmem) (by decide)

/-! ### More hops -/

/-- The chain begins with the hop `a`, and more hops come after it. -/
def BeginsWith (a chain : List Char) : Prop :=
  ∃ e tail, e.all isBlank ∧ chain = a ++ (e ++ ',' :: tail)

/-- With more hops after it, the chain begins with its first hop. -/
theorem beginsWith_trim_append (hne : firstHop t ≠ []) (more : List Char) :
    BeginsWith (firstHop t) (trim t ++ ',' :: more) := by
  by_cases ht : ',' ∈ t
  · obtain ⟨w, tail, rfl, hw⟩ := List.eq_append_cons_of_mem ht
    rw [firstHop_append_comma hw] at hne ⊢
    obtain ⟨⟨s, e, hs, he, heq⟩, hbare⟩ : Trims w (trim w) := trims_iff.mpr rfl
    have hfront : Bare isBlank (trim w ++ (e ++ [','])) := by
      refine ⟨fun c hc => hbare.head c ?_, fun c hc => ?_⟩
      · rwa [List.head?_append_of_ne_nil _ hne] at hc
      · rw [← List.append_assoc, List.getLast?_concat] at hc
        cases hc
        rfl
    have htrim : trim (w ++ ',' :: tail) = strip isBlank (trim w ++ (e ++ [',']) ++ tail) := by
      rw [trim_eq_strip, ← strip_append_left hs (trim w ++ (e ++ [',']) ++ tail)]
      conv_lhs => rw [heq]
      simp
    obtain ⟨rest, hrest⟩ := hfront.exists_strip_append (by simp) tail
    refine ⟨e, rest ++ ',' :: more, he, ?_⟩
    rw [htrim, hrest]
    simp
  · rw [firstHop_of_not_mem ht]
    exact ⟨[], more, rfl, rfl⟩

/-! ### Cuts -/

/-- **A cut keeps the first hop**, if it is not in it. -/
theorem BeginsWith.firstHop_take {chain : List Char} (h : BeginsWith a chain) {x : Address}
    (ha : Address.parse? a = some x) {k : Nat} (hk : a.length ≤ k) :
    firstHop (chain.take k) = a := by
  obtain ⟨e, tail, he, rfl⟩ := h
  have hcut : ((a ++ (e ++ ',' :: tail)).take k).takeWhile (· != ',') =
      a ++ e.take (k - a.length) := by
    have hfront : ',' ∉ a ++ e.take (k - a.length) := by
      rw [List.mem_append, not_or]
      refine ⟨not_mem_of_parse? ha, fun hmem => ?_⟩
      exact absurd (List.all_eq_true.mp he _ (List.mem_of_mem_take hmem)) (by decide)
    rw [List.take_append, List.take_of_length_le hk, List.take_append, ← List.append_assoc]
    cases k - a.length - e.length with
    | zero => rw [List.take_zero, List.append_nil, takeWhile_of_not_mem hfront]
    | succ n => rw [List.take_succ_cons, takeWhile_append_separator hfront]
  have hblank : (e.take (k - a.length)).all isBlank :=
    List.all_eq_true.mpr fun c hc => List.all_eq_true.mp he c (List.mem_of_mem_take hc)
  rw [firstHop, hcut]
  exact (strip_append_right hblank a).trans (bare_of_parse? ha).strip_eq

/-- **Sanitizing keeps the first hop** of a chain that begins with an address. -/
theorem BeginsWith.firstHop_sanitize {chain : List Char} (h : BeginsWith a chain) {x : Address}
    (ha : Address.parse? a = some x) : firstHop (sanitize chain) = a := by
  have hlen : a.length ≤ maxValueLength :=
    Nat.le_trans (Address.length_le_of_parse? ha) (by decide)
  refine BeginsWith.firstHop_take ?_ ha hlen
  obtain ⟨e, tail, he, rfl⟩ := h
  have hfilter : a.filter (fun c => c != '\r' && c != '\n' && c != '\x00') = a := by
    rw [List.filter_eq_self]
    intro c hc
    have hrange := Address.toNat_of_isAddressChar (Address.isAddressChar_of_parse? ha c hc)
    simp only [Bool.and_eq_true, bne_iff_ne]
    refine ⟨⟨?_, ?_⟩, ?_⟩ <;> rintro rfl <;> exact absurd hrange (by decide)
  refine ⟨e.filter _, _, ?_, by rw [List.filter_append, hfilter, List.filter_append]; rfl⟩
  exact List.all_eq_true.mpr fun c hc => List.all_eq_true.mp he c (List.mem_filter.mp hc).1

end EdgeGateway.Edge

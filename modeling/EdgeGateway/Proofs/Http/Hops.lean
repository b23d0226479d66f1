import EdgeGateway.Http.Header
import EdgeGateway.Proofs.Text.Split
import EdgeGateway.Proofs.Text.Trim

/-! # Values that are lists of hops

The value of a forwarded-for header is a list of hops, with commas between them and blanks around
them. A value that goes on after a comma adds its hops to the end (`hops_append_comma`), and blanks
at either end do not count (`hops_blank_append`, `hops_append_blank`).

What a value loses when it is cut is seen in its hops: they stay the same just if nothing but blanks
is cut off (`hops_append_eq_iff`). The proof counts the bytes that are not blank, and the commas
between the hops (`weight_hops`). -/

namespace EdgeGateway.Http.HeaderValue

/-- A blank or a tab. -/
def isBlankByte (b : UInt8) : Bool := b == 0x20 || b == 9

/-- A value without the blanks around it. -/
def trim (v : HeaderValue) : HeaderValue := (v.dropWhile isBlankByte).rdropWhile isBlankByte

/-- The hops of a value. -/
def hops (v : HeaderValue) : List HeaderValue := (v.splitOn 0x2C).map trim

/-- The number of bytes that are not blank. -/
def ink (v : HeaderValue) : Nat := v.countP fun b => !isBlankByte b

variable {s v w : HeaderValue}

/-! ### Blanks -/

theorem trim_blank_append (hs : s.all isBlankByte) (v : HeaderValue) : trim (s ++ v) = trim v :=
  Text.strip_append_left hs v

theorem trim_append_blank (hs : s.all isBlankByte) (v : HeaderValue) : trim (v ++ s) = trim v :=
  Text.strip_append_right hs v

/-- Blanks are all that is left out. -/
theorem exists_eq_trim (v : HeaderValue) :
    ∃ s t, s.all isBlankByte ∧ t.all isBlankByte ∧ v = s ++ (trim v ++ t) :=
  Text.exists_eq_strip isBlankByte v

theorem trim_of_not_blank (h : ∀ b ∈ v, isBlankByte b = false) : trim v = v :=
  (Text.bare_of_forall h).strip_eq

theorem trim_eq_nil_iff : trim v = [] ↔ v.all isBlankByte := Text.strip_eq_nil_iff

theorem ink_append (v w : HeaderValue) : ink (v ++ w) = ink v + ink w := List.countP_append

theorem ink_eq_zero_iff : ink v = 0 ↔ v.all isBlankByte := by
  simp [ink]

theorem ink_trim (v : HeaderValue) : ink (trim v) = ink v := by
  obtain ⟨s, t, hs, ht, hv⟩ := exists_eq_trim v
  have hink := congrArg ink hv
  rw [ink_append, ink_append, ink_eq_zero_iff.mpr hs, ink_eq_zero_iff.mpr ht] at hink
  omega

/-! ### One hop after the other -/

/-- A value is a hop, or it goes on after its first hop and a comma. -/
theorem hops_induction {P : HeaderValue → Prop} (hop : ∀ w, 0x2C ∉ w → P w)
    (comma : ∀ w v, 0x2C ∉ w → P v → P (w ++ 0x2C :: v)) (v : HeaderValue) : P v :=
  Text.split_induction 0x2C hop comma v

theorem hops_append_comma (v w : HeaderValue) : hops (v ++ 0x2C :: w) = hops v ++ hops w := by
  unfold hops
  rw [List.splitOn_append_cons_self, List.map_append]

theorem hops_of_not_mem (h : 0x2C ∉ w) : hops w = [trim w] := by
  unfold hops
  rw [List.splitOn_eq_singleton h]
  rfl

theorem hops_blank_append (hs : s.all isBlankByte) (v : HeaderValue) : hops (s ++ v) = hops v := by
  have hcomma : 0x2C ∉ s := fun hb => absurd (List.all_eq_true.mp hs _ hb) (by decide)
  induction v using hops_induction with
  | hop w hw =>
    have hsw : 0x2C ∉ s ++ w := by simp [hcomma, hw]
    rw [hops_of_not_mem hsw, hops_of_not_mem hw, trim_blank_append hs]
  | comma w v hw ih =>
    have hsw : 0x2C ∉ s ++ w := by simp [hcomma, hw]
    rw [← List.append_assoc, hops_append_comma, hops_append_comma, hops_of_not_mem hsw,
      hops_of_not_mem hw, trim_blank_append hs]

theorem hops_append_blank (hs : s.all isBlankByte) (v : HeaderValue) : hops (v ++ s) = hops v := by
  have hcomma : 0x2C ∉ s := fun hb => absurd (List.all_eq_true.mp hs _ hb) (by decide)
  induction v using hops_induction with
  | hop w hw =>
    have hws : 0x2C ∉ w ++ s := by simp [hcomma, hw]
    rw [hops_of_not_mem hws, hops_of_not_mem hw, trim_append_blank hs]
  | comma w v hw ih =>
    rw [List.append_assoc, List.cons_append, hops_append_comma, hops_append_comma, ih]

/-- Blanks around a value do not count. -/
theorem hops_trim (v : HeaderValue) : hops (trim v) = hops v := by
  obtain ⟨s, t, hs, ht, hv⟩ := exists_eq_trim v
  conv_rhs => rw [hv, hops_blank_append hs, hops_append_blank ht]

/-- A value without commas and blanks is one hop. -/
theorem hops_of_solid (h : ∀ b ∈ v, b ≠ 0x2C ∧ isBlankByte b = false) : hops v = [v] := by
  have hcomma : 0x2C ∉ v := fun hb => (h _ hb).1 rfl
  rw [hops_of_not_mem hcomma, trim_of_not_blank fun b hb => (h b hb).2]

/-- A blank value is one hop that is empty. -/
theorem hops_of_blank (h : v.all isBlankByte) : hops v = [[]] := by
  have hv := hops_append_blank h []
  rwa [List.nil_append] at hv

/-- A value that does not begin with a comma or a blank has a first hop that is not empty. -/
theorem hops_cons_ne {b : UInt8} (hb : b ≠ 0x2C) (hblank : isBlankByte b = false)
    (v : HeaderValue) (hs : List HeaderValue) : hops (b :: v) ≠ [] :: hs := by
  have htrim (w : HeaderValue) : trim (b :: w) ≠ [] := by
    rw [Ne, trim_eq_nil_iff]
    simp [hblank]
  by_cases hv : 0x2C ∈ b :: v
  · obtain ⟨w, rest, heq, hw⟩ := List.eq_append_cons_of_mem hv
    cases w with
    | nil => exact absurd (List.cons.inj heq).1 hb
    | cons c w =>
      obtain ⟨rfl, -⟩ := List.cons.inj heq
      rw [heq, hops_append_comma, hops_of_not_mem hw]
      exact fun h => htrim w (List.cons.inj h).1
  · rw [hops_of_not_mem hv]
    exact fun h => htrim v (List.cons.inj h).1

/-! ### What a cut takes away -/

/-- What hops weigh: a hop as much as its bytes that are not blank, and one for the comma. -/
def weight : List HeaderValue → Nat
  | [] => 0
  | h :: hs => ink h + 1 + weight hs

theorem weight_append (hs hs' : List HeaderValue) :
    weight (hs ++ hs') = weight hs + weight hs' := by
  induction hs with
  | nil => exact (Nat.zero_add _).symm
  | cons h hs ih =>
    rw [List.cons_append, weight, weight, ih]
    omega

theorem weight_hops (v : HeaderValue) : weight (hops v) = ink v + 1 := by
  induction v using hops_induction with
  | hop w hw => simp [hops_of_not_mem hw, weight, ink_trim]
  | comma w v hw ih =>
    have hcomma : ink (0x2C :: v) = ink v + 1 := ink_append [0x2C] v |>.trans (Nat.add_comm ..)
    rw [hops_append_comma, weight_append, ih, hops_of_not_mem hw, ink_append, hcomma]
    simp [weight, ink_trim]
    omega

theorem length_le_weight (vs : List HeaderValue) : vs.length ≤ weight (vs.flatMap hops) := by
  induction vs with
  | nil => exact Nat.le_refl 0
  | cons v vs ih =>
    rw [List.flatMap_cons, weight_append, weight_hops, List.length_cons]
    omega

/-- **A cut keeps the hops** just if nothing but blanks is cut off. -/
theorem hops_append_eq_iff : hops (v ++ w) = hops v ↔ w.all isBlankByte := by
  constructor
  · intro h
    have hweight := congrArg weight h
    rw [weight_hops, weight_hops, ink_append] at hweight
    exact ink_eq_zero_iff.mp (by omega)
  · exact fun hw => hops_append_blank hw v

end EdgeGateway.Http.HeaderValue

import EdgeGateway.Json.Decode
import EdgeGateway.Proofs.Json.RoundTrip

/-! # Values that are read out of their compact text

The text of a writable value is read as that value was (`document_compress`): integers by their
digits (`integer_int`), and the members of an object one after the other, where one that is left out
reads as nothing (`members_option`). -/

namespace EdgeGateway.Json

/-! ### Integers -/

namespace Number

/-- The digits of an integer write that integer. -/
theorem integer?_ofInt (i : Int) : (ofInt i).integer? = some i := by
  have hn : Text.ofDigits 10 (decimal i.natAbs) = i.natAbs :=
    Text.ofDigits_toDigits (by decide) (by decide) i.natAbs
  rw [ofInt_eq, integer?]
  simp only [List.isEmpty_nil, Option.isNone_none, Bool.and_self, if_true, hn, decide_eq_true_eq]
  by_cases hi : i < 0
  · rw [if_pos hi, if_neg (by omega)]
    congr 1
    omega
  · rw [if_neg hi]
    congr 1
    omega

end Number

/-! ### Writable objects -/

namespace Tree

variable {ms ms' : List (Option String × Tree)}

theorem isWritable_str (s : String) : (str s).IsWritable := rfl

theorem isWritable_int (i : Int) : (int i).IsWritable := ⟨i, rfl⟩

theorem membersWritable_append (h : MembersWritable ms) (h' : MembersWritable ms') :
    MembersWritable (ms ++ ms') := by
  induction ms with
  | nil => exact h'
  | cons m ms ih => exact ⟨h.1, h.2.1, ih h.2.2⟩

/-- A member that is left out where there is nothing to write. -/
def optionMember {α : Type} (key : String) (f : α → Tree) (o : Option α) :
    List (Option String × Tree) :=
  (o.map fun a => (some key, f a)).toList

theorem membersWritable_option {α : Type} (key : String) {f : α → Tree}
    (h : ∀ a, (f a).IsWritable) (o : Option α) : MembersWritable (optionMember key f o) := by
  cases o with
  | none => trivial
  | some a => exact ⟨rfl, h a, trivial⟩

end Tree

end EdgeGateway.Json

namespace EdgeGateway.Decode

open Json

theorem integer_int {lo hi i : Int} (h : lo ≤ i ∧ i ≤ hi) : integer lo hi (.int i) = .ok i := by
  unfold integer Tree.int
  simp only [Number.integer?_ofInt]
  exact if_pos h

section Members

variable {σ α : Type} {field : σ → String → Tree → Decoded σ} {s s' : σ}

theorem members_cons {key : String} {t : Tree} (h : field s key t = .ok s')
    (ms : List (Option String × Tree)) :
    members field s ((some key, t) :: ms) = members field s' ms := by
  rw [members, h]
  rfl

/-- A member that may be left out is read by what it would set. -/
theorem members_option {key : String} {f : α → Tree} (set : Option α → σ) (hnone : set none = s)
    (hsome : ∀ a, field s key (f a) = .ok (set (some a))) (o : Option α)
    (ms : List (Option String × Tree)) :
    members field s (Tree.optionMember key f o ++ ms) = members field (set o) ms := by
  cases o with
  | none => rw [hnone]; rfl
  | some a => exact members_cons (hsome a) ms

end Members

/-- **A writable value is read out of its text** as it is read by itself. -/
theorem document_compress {α : Type} (f : Tree → Decoded α) {t : Tree} (h : t.IsWritable) :
    document f t.compress.toUTF8 = f t := by
  unfold document
  rw [Document.read_compress h]
  show (do let a ← f t; if false = true then Except.error DecodeError.malformed else .ok a) = f t
  rcases f t with e | a <;> rfl

end EdgeGateway.Decode

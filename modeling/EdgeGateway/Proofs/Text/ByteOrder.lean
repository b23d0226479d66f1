import Mathlib.Tactic.SplitIfs
import EdgeGateway.KeyMap
import EdgeGateway.Proofs.Http.Value

/-! # The order of texts is that of their bytes

Texts are compared by their characters. In UTF-8 the bytes of a smaller character are smaller
already at the first place where they differ from those of a larger one (`utf8EncodeChar_lt`), so
comparing texts by their bytes comes to the same (`lt_iff_bytes`). -/

namespace EdgeGateway.Text

theorem ofNat_cons_lt {a b : Nat} (ha : a < 256) (hb : b < 256) (s t : List UInt8) :
    UInt8.ofNat a :: s < UInt8.ofNat b :: t ↔ a < b ∨ a = b ∧ s < t := by
  rw [List.cons_lt_cons_iff, UInt8.ofNat_lt_iff_lt ha hb, ← UInt8.toNat_inj,
    UInt8.toNat_ofNat_of_lt' ha, UInt8.toNat_ofNat_of_lt' hb]

/-- The bytes of a smaller character are smaller, whatever follows. -/
theorem utf8EncodeChar_lt {c d : Char} (h : c < d) (s t : List UInt8) :
    String.utf8EncodeChar c ++ s < String.utf8EncodeChar d ++ t := by
  have hlt : c.val.toNat < d.val.toNat := h
  have hmax : d.val.toNat < 0x110000 := by
    rcases d.valid with hd | ⟨-, hd⟩
    · have : d.val.toNat < 0xd800 := hd
      omega
    · exact hd
  -- the bytes hold the digits to the base 64
  have h4096 (n : Nat) : n / 4096 = n / 64 / 64 := by omega
  have h262144 (n : Nat) : n / 262144 = n / 64 / 64 / 64 := by omega
  unfold String.utf8EncodeChar
  simp only [h4096, h262144]
  split_ifs <;>
    simp (disch := omega) only [List.cons_append, List.nil_append, ofNat_cons_lt] <;> omega

theorem encode_lt_encode {s t : List Char} (h : s < t) :
    s.flatMap String.utf8EncodeChar < t.flatMap String.utf8EncodeChar := by
  induction h with
  | @nil c t =>
    obtain ⟨b, bs, hb⟩ := List.exists_cons_of_ne_nil (String.utf8EncodeChar_ne_nil (c := c))
    rw [List.flatMap_cons, hb]
    exact List.nil_lt_cons b _
  | rel h => exact utf8EncodeChar_lt h _ _
  | cons _ ih => exact List.append_left_lt ih

/-- **The order of texts is that of their bytes.** -/
theorem lt_iff_bytes (a b : String) : a < b ↔ a.toUTF8.toList < b.toUTF8.toList := by
  have hbytes (s : String) : s.toUTF8.toList = s.toList.flatMap String.utf8EncodeChar := by
    rw [← String.ofList_toList (s := s), Http.toList_toUTF8, String.toList_ofList]
    rfl
  have hmono {a b : String} (h : a < b) : a.toUTF8.toList < b.toUTF8.toList := by
    rw [hbytes, hbytes]
    exact encode_lt_encode h
  refine ⟨hmono, fun h => ?_⟩
  by_cases hlt : a < b
  · exact hlt
  by_cases he : a = b
  · subst he
    exact absurd h (List.lt_irrefl _)
  · exact absurd (hmono (Std.lt_of_le_of_ne (String.not_lt.mp hlt) (Ne.symm he))) (List.lt_asymm h)

end EdgeGateway.Text

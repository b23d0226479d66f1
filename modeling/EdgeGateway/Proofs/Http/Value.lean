import Mathlib.Tactic.SplitIfs
import EdgeGateway.Proofs.Http.Header
import EdgeGateway.Proofs.Text.Digit

/-! # Texts as header values

Header values are bytes, and a text is encoded in UTF-8 to become one. All bytes of a character
beyond ASCII may stand in a value, so a text can be a value just when it has no control character
but the tab (`HeaderValue.ofText?_eq`). What a header has after a text was set is therefore known
from the characters of the text (`Headers.values_setText_self`). Numbers can always be values
(`stampable_decimal`). -/

namespace EdgeGateway.Http

/-- A character that may stand in a header value. -/
def isValueChar (c : Char) : Bool := (0x20 ≤ c.toNat && c.toNat != 0x7F) || c.toNat == 9

/-- The bytes of a text. -/
def HeaderValue.encode (s : List Char) : HeaderValue := s.flatMap String.utf8EncodeChar

/-- The sanitized text can be a value. -/
def Stampable (s : List Char) : Prop := (sanitize s).all isValueChar

instance (s : List Char) : Decidable (Stampable s) := by unfold Stampable; infer_instance

/-! ### The bytes of a text -/

theorem isValueByte_ascii : ∀ n < 128, isValueByte (UInt8.ofNat n) =
    ((decide (0x20 ≤ n) && n != 0x7F) || n == 9) := by
  decide

theorem isValueByte_beyond {n : Nat} (h : 128 ≤ n) (h' : n < 256) :
    isValueByte (UInt8.ofNat n) = true := by
  have hall : ∀ k < 128, isValueByte (UInt8.ofNat (k + 128)) = true := by decide
  have hn := hall (n - 128) (by omega)
  rwa [Nat.sub_add_cancel h] at hn

/-- The bytes of a character may stand in a value just if the character may. -/
theorem all_utf8EncodeChar (c : Char) :
    (String.utf8EncodeChar c).all isValueByte = isValueChar c := by
  unfold String.utf8EncodeChar
  rw [show c.val.toNat = c.toNat from rfl]
  dsimp only
  split_ifs with h
  · rw [List.all_cons, List.all_nil, Bool.and_true, isValueByte_ascii _ (by omega), isValueChar]
  -- beyond ASCII every byte is 128 or more, and so is the character
  all_goals
    have hc : isValueChar c = true := by
      simp only [isValueChar, Bool.or_eq_true, Bool.and_eq_true, decide_eq_true_eq, bne_iff_ne]
      omega
    rw [hc]
    simp (disch := omega) only [List.all_cons, List.all_nil, isValueByte_beyond, Bool.and_self]

theorem toList_loop (b : ByteArray) (i : Nat) (r : List UInt8) :
    ByteArray.toList.loop b i r = r.reverse ++ b.data.toList.drop i := by
  fun_induction ByteArray.toList.loop b i r with
  | case1 i r hi ih =>
    have hget : b.get! i = b.data.toList[i] := by
      show b.data[i]! = _
      rw [getElem!_pos b.data i hi, Array.getElem_toList]
    rw [ih, List.drop_eq_getElem_cons (l := b.data.toList) hi, hget]
    simp
  | case2 i r hi =>
    rw [List.drop_eq_nil_of_le (by simpa using hi), List.append_nil]

theorem toList_toUTF8 (s : List Char) : (String.ofList s).toUTF8.toList = HeaderValue.encode s := by
  unfold ByteArray.toList
  rw [toList_loop, String.toUTF8_eq_toByteArray, String.toByteArray_ofList, List.utf8Encode,
    List.data_toByteArray]
  rfl

theorem HeaderValue.encode_append (s t : List Char) : encode (s ++ t) = encode s ++ encode t :=
  List.flatMap_append

/-- Different texts have different bytes. -/
theorem HeaderValue.encode_inj {s t : List Char} : encode s = encode t ↔ s = t := by
  refine ⟨fun h => ?_, congrArg encode⟩
  have hb : (String.ofList s).toByteArray = (String.ofList t).toByteArray := by
    rw [String.toByteArray_ofList, String.toByteArray_ofList]
    exact congrArg List.toByteArray h
  exact String.ofList_inj.mp (String.toByteArray_inj.mp hb)

/-- **A text can be a value** just when it has no control character but the tab. -/
theorem HeaderValue.ofText?_eq (s : List Char) :
    HeaderValue.ofText? s = if s.all isValueChar then some (encode s) else none := by
  have hall : (encode s).all isValueByte = s.all isValueChar := by
    unfold encode
    rw [List.all_flatMap]
    simp only [all_utf8EncodeChar]
  unfold ofText?
  rw [toList_toUTF8]
  dsimp only
  rw [hall]

theorem HeaderValue.ofText?_eq_some_iff {s : List Char} {v : HeaderValue} :
    ofText? s = some v ↔ (∀ c ∈ s, isValueChar c) ∧ v = encode s := by
  rw [ofText?_eq, ← List.all_eq_true]
  split
  next hs => simp only [hs, true_and, Option.some.injEq, eq_comm]
  next hs => simp only [hs, false_and, reduceCtorEq]

namespace Headers

/-- What a name has after a text was set under it. -/
theorem values_setText_self (h : Headers) (n : String) (s : List Char) :
    (h.setText n s).values n =
      if Stampable s then [HeaderValue.encode (sanitize s)] else h.values n := by
  rw [values_setText, if_pos rfl, HeaderValue.ofText?_eq]
  by_cases hs : Stampable s
  · rw [if_pos hs, if_pos (show (sanitize s).all isValueChar from hs)]
    rfl
  · rw [if_neg hs, if_neg (show ¬ (sanitize s).all isValueChar from hs)]
    rfl

end Headers

/-! ### Numbers -/

/-- Sanitizing only cuts a text that can be a value. -/
theorem sanitize_eq_take {s : List Char} (hs : ∀ c ∈ s, isValueChar c) :
    sanitize s = s.take maxValueLength := by
  unfold sanitize
  rw [List.filter_eq_self.mpr]
  intro c hc
  simp only [Bool.and_eq_true, bne_iff_ne]
  refine ⟨⟨?_, ?_⟩, ?_⟩ <;> rintro rfl <;> exact absurd (hs _ hc) (by decide)

theorem sanitize_eq_self {s : List Char} (hs : ∀ c ∈ s, isValueChar c)
    (hl : s.length ≤ maxValueLength) : sanitize s = s := by
  rw [sanitize_eq_take hs, List.take_of_length_le hl]

theorem isValueChar_of_mem_decimal {n : Nat} {c : Char} (hc : c ∈ Nat.toDigits 10 n) :
    isValueChar c = true := by
  have hd := Nat.isDigit_of_mem_toDigits (by decide) (by decide) hc
  simp only [Char.isDigit, Bool.and_eq_true, decide_eq_true_eq, ge_iff_le, UInt32.le_iff_toNat_le]
    at hd
  have h1 : 48 ≤ c.toNat := hd.1
  have h2 : c.toNat ≤ 57 := hd.2
  simp only [isValueChar, Bool.or_eq_true, Bool.and_eq_true, decide_eq_true_eq, bne_iff_ne]
  omega

/-- A number of 64 bits is left as it is by sanitizing. -/
theorem sanitize_decimal (n : UInt64) : sanitize (toString n).toList = (toString n).toList := by
  have hn : (toString n).toList = Nat.toDigits 10 n.toNat := Nat.toList_repr
  rw [hn]
  refine sanitize_eq_self (fun c hc => isValueChar_of_mem_decimal hc) ?_
  have hl := (Nat.length_toDigits_le_iff (b := 10) (k := 20) (by decide) (by decide)).mpr
    (Nat.lt_trans n.toNat_lt (by decide))
  exact Nat.le_trans hl (by decide)

theorem stampable_decimal (n : UInt64) : Stampable (toString n).toList := by
  unfold Stampable
  rw [sanitize_decimal, show (toString n).toList = Nat.toDigits 10 n.toNat from Nat.toList_repr,
    List.all_eq_true]
  exact fun c hc => isValueChar_of_mem_decimal hc

theorem HeaderValue.encode_decimal_inj {m n : UInt64} :
    encode (toString m).toList = encode (toString n).toList ↔ m = n := by
  have hdigits (n : UInt64) : (toString n).toList = Nat.toDigits 10 n.toNat := Nat.toList_repr
  rw [encode_inj, hdigits, hdigits, Text.toDigits_inj (by decide) (by decide), UInt64.toNat_inj]

end EdgeGateway.Http

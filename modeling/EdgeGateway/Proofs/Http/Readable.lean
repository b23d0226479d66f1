import EdgeGateway.Proofs.Http.Hops
import EdgeGateway.Proofs.Http.Value

/-! # Values that can be read

A value is read as text if all its bytes are printable ASCII or the tab. Reading undoes encoding,
blanks are where they were, and so are separators (`encode_text`, `trim_text`,
`exists_text?_append_cons`). But more can be written than can be read: a text is read back from its
bytes just if its characters are readable, and is not read at all otherwise (`text?_encode`). -/

namespace EdgeGateway.Http

/-- A character of readable text: printable ASCII or the tab. -/
def isReadableChar (c : Char) : Bool := (0x20 ≤ c.toNat && c.toNat < 0x7F) || c.toNat == 9

/-- What can be a value is readable as far as it is ASCII. -/
theorem isReadableChar_of_isValueChar {c : Char} (h : isValueChar c) (hascii : c.toNat < 128) :
    isReadableChar c := by
  simp only [isValueChar, isReadableChar, Bool.or_eq_true, Bool.and_eq_true, decide_eq_true_eq,
    bne_iff_ne, beq_iff_eq] at h ⊢
  omega

theorem toNat_of_isReadableChar {c : Char} (h : isReadableChar c) : c.toNat < 128 := by
  simp only [isReadableChar, Bool.or_eq_true, Bool.and_eq_true, decide_eq_true_eq,
    beq_iff_eq] at h
  omega

namespace HeaderValue

variable {v : HeaderValue}

/-! ### Reading -/

theorem utf8EncodeChar_ascii {c : Char} (h : c.toNat < 128) :
    String.utf8EncodeChar c = [UInt8.ofNat c.toNat] := by
  have hle : c.val.toNat ≤ 127 := Nat.le_of_lt_succ h
  unfold String.utf8EncodeChar
  simp only [hle, if_true]
  rfl

theorem readable_ascii : ∀ n < 127, isReadableByte (UInt8.ofNat n) →
    isValueChar (Char.ofNat n) ∧ Text.isBlank (Char.ofNat n) = isBlankByte (UInt8.ofNat n) ∧
      (Char.ofNat n).toNat = n := by
  decide

/-- A readable byte is a character by itself. -/
theorem readable_byte {b : UInt8} (h : isReadableByte b) :
    isValueChar (Char.ofNat b.toNat) ∧ Text.isBlank (Char.ofNat b.toNat) = isBlankByte b ∧
      String.utf8EncodeChar (Char.ofNat b.toNat) = [b] := by
  have hlt : b.toNat < 127 := by
    simp only [isReadableByte, Bool.or_eq_true, Bool.and_eq_true, decide_eq_true_eq, beq_iff_eq,
      UInt8.lt_iff_toNat_lt] at h
    rcases h with ⟨-, h⟩ | rfl
    · exact h
    · decide
  have hascii := readable_ascii b.toNat hlt
  rw [UInt8.ofNat_toNat] at hascii
  obtain ⟨hvalue, hblank, hn⟩ := hascii h
  refine ⟨hvalue, hblank, ?_⟩
  rw [utf8EncodeChar_ascii (by omega), hn, UInt8.ofNat_toNat]

theorem text?_eq_some_iff {t : List Char} : text? v = some t ↔
    (∀ b ∈ v, isReadableByte b) ∧ t = v.map fun b => Char.ofNat b.toNat := by
  rw [text?, ← List.all_eq_true]
  split
  next h => simp only [h, true_and, Option.some.injEq, eq_comm]
  next h => simp only [h, false_and, reduceCtorEq]

theorem encode_map (h : ∀ b ∈ v, isReadableByte b) :
    encode (v.map fun b => Char.ofNat b.toNat) = v := by
  induction v with
  | nil => rfl
  | cons b v ih =>
    have hb := (readable_byte (h b (by simp))).2.2
    have hv := ih fun b hb => h b (by simp [hb])
    unfold encode at hv ⊢
    rw [List.map_cons, List.flatMap_cons, hb, hv]
    rfl

theorem dropWhile_map (h : ∀ b ∈ v, isReadableByte b) :
    (v.map fun b => Char.ofNat b.toNat).dropWhile Text.isBlank =
      (v.dropWhile isBlankByte).map fun b => Char.ofNat b.toNat := by
  induction v with
  | nil => rfl
  | cons b v ih =>
    have hb := (readable_byte (h b (by simp))).2.1
    have hv := ih fun b hb => h b (by simp [hb])
    rw [List.map_cons, List.dropWhile_cons, List.dropWhile_cons, hb, hv]
    split <;> rfl

/-- The blanks around a readable text are those around its bytes. -/
theorem trim_text {t : List Char} (h : text? v = some t) :
    text? (trim v) = some (Text.trim t) := by
  obtain ⟨hread, rfl⟩ := text?_eq_some_iff.mp h
  have hstart : ∀ b ∈ (v.dropWhile isBlankByte).reverse, isReadableByte b := fun b hb =>
    hread b ((List.dropWhile_sublist _).mem (List.mem_reverse.mp hb))
  refine text?_eq_some_iff.mpr ⟨fun b hb => ?_, ?_⟩
  · exact hstart b (List.mem_reverse.mpr ((List.rdropWhile_prefix isBlankByte _).sublist.mem hb))
  · rw [Text.trim, Text.trimStart, dropWhile_map hread, Text.trimEnd, ← List.map_reverse,
      dropWhile_map hstart, ← List.map_reverse]
    rfl

/-- A readable text is encoded as the value that it was read from, and can be a value. -/
theorem encode_text {t : List Char} (h : text? v = some t) :
    encode t = v ∧ ∀ c ∈ t, isValueChar c := by
  obtain ⟨hread, rfl⟩ := text?_eq_some_iff.mp h
  refine ⟨encode_map hread, fun c hc => ?_⟩
  obtain ⟨b, hb, rfl⟩ := List.mem_map.mp hc
  exact (readable_byte (hread b hb)).1

/-! ### Parts of a readable value -/

variable {w : HeaderValue} {t : List Char} {b : UInt8} {c : Char}

theorem text?_append_eq_some_iff : text? (v ++ w) = some t ↔
    ∃ s r, t = s ++ r ∧ text? v = some s ∧ text? w = some r := by
  simp only [text?_eq_some_iff, List.forall_mem_append, List.map_append]
  constructor
  · rintro ⟨⟨hv, hw⟩, rfl⟩
    exact ⟨_, _, rfl, ⟨hv, rfl⟩, ⟨hw, rfl⟩⟩
  · rintro ⟨s, r, rfl, ⟨hv, rfl⟩, ⟨hw, rfl⟩⟩
    exact ⟨⟨hv, hw⟩, rfl⟩

/-- A readable value that is cut at a byte is cut at a character. -/
theorem exists_text?_append_cons (hc : Char.ofNat b.toNat = c)
    (h : text? (v ++ b :: w) = some t) :
    ∃ s r, t = s ++ c :: r ∧ text? v = some s ∧ text? w = some r := by
  obtain ⟨s, r, rfl, hs, hr⟩ := text?_append_eq_some_iff.mp h
  obtain ⟨hread, rfl⟩ := text?_eq_some_iff.mp hr
  rw [List.map_cons, hc]
  refine ⟨s, _, rfl, hs, text?_eq_some_iff.mpr ⟨fun b hb => ?_, rfl⟩⟩
  exact hread b (List.mem_cons_of_mem _ hb)

theorem not_mem_of_text? (hc : String.utf8EncodeChar c = [b]) (h : text? v = some t)
    (hb : b ∉ v) : c ∉ t := by
  intro hmem
  rw [← (encode_text h).1] at hb
  exact hb (List.mem_flatMap.mpr ⟨c, hmem, by simp [hc]⟩)

/-- A text is read from its bytes only. -/
theorem eq_iff_of_text? (h : text? v = some t) (s : List Char) : t = s ↔ v = encode s := by
  rw [← encode_inj, (encode_text h).1]

/-! ### Reading what was written -/

theorem isReadableByte_ascii : ∀ n < 128, isReadableByte (UInt8.ofNat n) =
    ((decide (0x20 ≤ n) && decide (n < 0x7F)) || n == 9) := by
  decide

theorem isReadableByte_beyond {n : Nat} (h : 128 ≤ n) (h' : n < 256) :
    isReadableByte (UInt8.ofNat n) = false := by
  have hall : ∀ k < 128, isReadableByte (UInt8.ofNat (k + 128)) = false := by decide
  have hn := hall (n - 128) (by omega)
  rwa [Nat.sub_add_cancel h] at hn

/-- The bytes of a character are readable just if the character is. -/
theorem all_isReadableByte_utf8EncodeChar (c : Char) :
    (String.utf8EncodeChar c).all isReadableByte = isReadableChar c := by
  unfold String.utf8EncodeChar
  rw [show c.val.toNat = c.toNat from rfl]
  dsimp only
  split_ifs with h
  · rw [List.all_cons, List.all_nil, Bool.and_true, isReadableByte_ascii _ (by omega),
      isReadableChar]
  -- beyond ASCII the first byte is 128 or more already, and so is the character
  all_goals
    have hc : isReadableChar c = false := by
      simp only [isReadableChar, Bool.or_eq_false_iff, Bool.and_eq_false_iff,
        decide_eq_false_iff_not, beq_eq_false_iff_ne]
      omega
    rw [hc]
    simp (disch := omega) only [List.all_cons, isReadableByte_beyond, Bool.false_and]

theorem all_encode (s : List Char) : (encode s).all isReadableByte = s.all isReadableChar := by
  unfold encode
  rw [List.all_flatMap]
  simp only [all_isReadableByte_utf8EncodeChar]

/-- What is read is readable. -/
theorem isReadableChar_of_text? {t : List Char} (h : text? v = some t) :
    ∀ c ∈ t, isReadableChar c := by
  rw [← List.all_eq_true, ← all_encode, (encode_text h).1, List.all_eq_true]
  exact (text?_eq_some_iff.mp h).1

/-- **What is read** of an encoded text: the text itself, if it is readable, and nothing else. -/
theorem text?_encode (s : List Char) :
    text? (encode s) = if s.all isReadableChar then some s else none := by
  rw [← all_encode]
  cases ht : text? (encode s) with
  | some t =>
    have hread := (text?_eq_some_iff.mp ht).1
    rw [if_pos (List.all_eq_true.mpr hread), encode_inj.mp (encode_text ht).1]
  | none =>
    rw [text?] at ht
    split at ht
    next => cases ht
    next hread => rw [if_neg hread]

end HeaderValue
end EdgeGateway.Http

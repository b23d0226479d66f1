/-!
# Bytes as symbols

A sequence of bytes is read as a list of symbols: a well-formed UTF-8 sequence is its character,
and a byte that begins none stands for itself. Nothing is refused here; a reader of symbols
decides where a stray byte is an offence.

* `symbols_encode`: the bytes of a text are read back as its characters.
-/

namespace EdgeGateway.Text

/-- A character, or a byte that belongs to no well-formed sequence. -/
inductive Symbol
  | char (c : Char)
  | stray (b : UInt8)
  deriving DecidableEq, Inhabited

/-- The symbols of the bytes from position `i` on. -/
def symbolsFrom (b : ByteArray) (i : Nat) : List Symbol :=
  if h : i < b.size then
    match b.utf8DecodeChar? i with
    | some c => .char c :: symbolsFrom b (i + c.utf8Size)
    | none => .stray b[i] :: symbolsFrom b (i + 1)
  else []
termination_by b.size - i
decreasing_by
  · have := Char.utf8Size_pos c; omega
  · omega

/-- The symbols of a sequence of bytes. -/
def symbols (b : ByteArray) : List Symbol := symbolsFrom b 0

theorem symbolsFrom_of_extract_eq (b : ByteArray) :
    ∀ (l : List Char) (i : Nat), b.extract i b.size = l.utf8Encode →
      symbolsFrom b i = l.map Symbol.char := by
  intro l
  induction l with
  | nil =>
    intro i h
    have hs : (b.extract i b.size).size = 0 := by rw [h]; rfl
    rw [ByteArray.size_extract] at hs
    rw [symbolsFrom, dif_neg (by omega)]
    rfl
  | cons c l ih =>
    intro i h
    have hd : b.utf8DecodeChar? i = some c := by
      rw [ByteArray.utf8DecodeChar?_eq_utf8DecodeChar?_extract, h,
        List.utf8DecodeChar?_utf8Encode_cons]
    have hlt : i < b.size := ByteArray.lt_size_of_isSome_utf8DecodeChar? (by rw [hd]; rfl)
    rw [symbolsFrom, dif_pos hlt, hd]
    simp only [List.map_cons, List.cons.injEq, true_and]
    apply ih
    have hsz := ByteArray.le_size_of_utf8DecodeChar?_eq_some hd
    have key : (b.extract i b.size).extract c.utf8Size (b.extract i b.size).size =
        b.extract (i + c.utf8Size) b.size := by
      rw [ByteArray.extract_extract]
      congr 1
      rw [ByteArray.size_extract]
      omega
    rw [← key, h, List.utf8Encode_cons]
    apply ByteArray.extract_append_eq_right
    · rw [List.utf8Encode_singleton, List.size_toByteArray, String.length_utf8EncodeChar]
    · rw [ByteArray.size_append]

/-- The bytes of a text are read back as its characters. -/
theorem symbols_encode (s : String) : symbols s.toUTF8 = s.toList.map Symbol.char := by
  apply symbolsFrom_of_extract_eq
  rw [String.toUTF8_eq_toByteArray, ByteArray.extract_zero_size, String.utf8Encode_toList]

end EdgeGateway.Text

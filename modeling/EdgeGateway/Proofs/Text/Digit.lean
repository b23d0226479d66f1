import EdgeGateway.Text.Digit

/-! # Digits are read as they are written

The text that the core library writes for a number in a radix of at most 16 consists of digits of
that radix (`digit?_of_mem_toDigits`), makes the number again (`ofDigits_toDigits`), and has no
superfluous zero in front (`head?_toDigits`). -/

namespace EdgeGateway.Text

theorem hexDigit?_digitChar : ∀ d < 16, hexDigit? (Nat.digitChar d) = some d := by decide

/-- Hexadecimal digits lie between `0` and `f`. -/
theorem toNat_of_hexDigit? {c : Char} (h : (hexDigit? c).isSome) :
    0x30 ≤ c.toNat ∧ c.toNat < 0x67 := by
  have hle (a b : Char) : a ≤ b ↔ a.toNat ≤ b.toNat := Iff.rfl
  rw [hexDigit?] at h
  simp only [hle, Bool.and_eq_true, decide_eq_true_eq, Char.reduceToNat] at h
  split at h
  · omega
  · split at h
    · omega
    · split at h
      · omega
      · simp at h

variable {r : Nat}

theorem digit?_digitChar (hr : r ≤ 16) {d : Nat} (hd : d < r) :
    digit? r (Nat.digitChar d) = some d := by
  rw [digit?, hexDigit?_digitChar d (by omega), Option.filter_some, if_pos (by simpa using hd)]

/-- Induction on the number of digits. -/
theorem digits_induction (h1 : 1 < r) {P : Nat → Prop} (digit : ∀ d < r, P d)
    (next : ∀ n, r ≤ n → P (n / r) → P n) (n : Nat) : P n := by
  induction n using Nat.strongRecOn with
  | ind n ih =>
    rcases Nat.lt_or_ge n r with h | h
    · exact digit n h
    · exact next n h (ih (n / r) (Nat.div_lt_self (by omega) h1))

/-- A number is written with digits of the radix. -/
theorem digit?_of_mem_toDigits (h1 : 1 < r) (hr : r ≤ 16) (n : Nat) :
    ∀ c ∈ Nat.toDigits r n, (digit? r c).isSome := by
  induction n using digits_induction h1 with
  | digit d hd =>
    intro c hc
    rw [Nat.toDigits_of_lt_base hd, List.mem_singleton] at hc
    rw [hc, digit?_digitChar hr hd, Option.isSome_some]
  | next n hn ih =>
    intro c hc
    rw [Nat.toDigits_of_base_le h1 hn, List.mem_append, List.mem_singleton] at hc
    rcases hc with hc | rfl
    · exact ih c hc
    · rw [digit?_digitChar hr (Nat.mod_lt n (by omega)), Option.isSome_some]

/-- The digits of a number make that number. -/
theorem ofDigits_toDigits (h1 : 1 < r) (hr : r ≤ 16) (n : Nat) :
    ofDigits r ((Nat.toDigits r n).filterMap (digit? r)) = n := by
  induction n using digits_induction h1 with
  | digit d hd =>
    rw [Nat.toDigits_of_lt_base hd, List.filterMap_cons_some (digit?_digitChar hr hd)]
    simp [ofDigits]
  | next n hn ih =>
    have hd := digit?_digitChar hr (Nat.mod_lt n (by omega : 0 < r))
    rw [ofDigits] at ih ⊢
    rw [Nat.toDigits_of_base_le h1 hn, List.filterMap_append, List.foldl_append, ih,
      List.filterMap_cons_some hd, List.filterMap_nil, List.foldl_cons, List.foldl_nil]
    exact Nat.div_add_mod' n r

/-- Zeros in front do not count. -/
theorem ofDigits_replicate_zero_append (r k : Nat) (ds : List Nat) :
    ofDigits r (List.replicate k 0 ++ ds) = ofDigits r ds := by
  induction k with
  | zero => rfl
  | succ k ih =>
    rw [List.replicate_succ, List.cons_append, ofDigits, List.foldl_cons, Nat.zero_mul]
    exact ih

/-- Different numbers have different digits. -/
theorem toDigits_inj (h1 : 1 < r) (hr : r ≤ 16) {m n : Nat} :
    Nat.toDigits r m = Nat.toDigits r n ↔ m = n := by
  refine ⟨fun h => ?_, fun h => by rw [h]⟩
  have hread := congrArg (fun ds => ofDigits r (ds.filterMap (digit? r))) h
  simpa only [ofDigits_toDigits h1 hr] using hread

theorem digitChar_ne_zero : ∀ d < 16, 0 < d → Nat.digitChar d ≠ '0' := by decide

/-- Only the number zero is written with a zero in front. -/
theorem head?_toDigits (h1 : 1 < r) (hr : r ≤ 16) (n : Nat) (hn : 0 < n) :
    (Nat.toDigits r n).head? ≠ some '0' := by
  induction n using digits_induction h1 with
  | digit d hd =>
    rw [Nat.toDigits_of_lt_base hd, List.head?_cons, Ne, Option.some.injEq]
    exact digitChar_ne_zero d (by omega) hn
  | next n hle ih =>
    obtain ⟨c, cs, hc⟩ := List.exists_cons_of_ne_nil (Nat.toDigits_ne_nil (b := r) (n := n / r))
    have hc' := ih (Nat.div_pos hle (by omega))
    rw [hc, List.head?_cons] at hc'
    rwa [Nat.toDigits_of_base_le h1 hle, hc, List.cons_append, List.head?_cons]

end EdgeGateway.Text

import Mathlib.Tactic.SplitIfs
import EdgeGateway.Json.Printer
import EdgeGateway.Proofs.Text.Digit

/-! # Literals are read as they are written

The two kinds of literal that a JSON text spells out: strings, whose characters are escaped one by
one (`literal?_quote`), and integers by their digits (`unsigned?_render`). What follows a literal is
a parameter of the statements; a number must not be followed by what could prolong it
(`Closes`). -/

namespace EdgeGateway.Json

open EdgeGateway.Text

/-- The symbols of a written text. -/
def written (cs : List Char) : List Symbol := cs.map Symbol.char

@[simp] theorem written_nil : written [] = [] := rfl

@[simp] theorem written_cons (c : Char) (cs : List Char) :
    written (c :: cs) = .char c :: written cs := rfl

@[simp] theorem written_append (cs ds : List Char) :
    written (cs ++ ds) = written cs ++ written ds := List.map_append

namespace Token

/-! ### Strings -/

theorem hexUnit?_control {n : Nat} (h : n < 0x20) :
    hexUnit? '0' '0' (Nat.digitChar (n / 16)) (Nat.digitChar (n % 16)) = some n := by
  have h0 : hexDigit? '0' = some 0 := rfl
  unfold hexUnit?
  rw [h0, hexDigit?_digitChar _ (by omega), hexDigit?_digitChar _ (by omega)]
  show some (((0 * 16 + 0) * 16 + n / 16) * 16 + n % 16) = some n
  congr 1
  omega

theorem join?_char (c : Char) (ps : List Piece) :
    join? (.char c :: ps) = (join? ps).map (c :: ·) := rfl

theorem join?_control {c : Char} (h : c.toNat < 0x20) (ps : List Piece) :
    join? (.unit c.toNat :: ps) = (join? ps).map (c :: ·) := by
  rw [join?.eq_def]
  simp only
  rw [if_pos (by simp; omega), Char.ofNat_toNat]

/-- A character is written as one piece of a literal, which stands for that character. -/
theorem literal?_escape (c : Char) : ∃ p : Piece,
    (∀ rest, literal? (written (escape c) ++ rest) =
      (literal? rest).map fun (ps, r) => (p :: ps, r)) ∧
    ∀ ps, join? (p :: ps) = (join? ps).map (c :: ·) := by
  unfold escape
  split_ifs with h₁ h₂ h₃ h₄ h₅ h₆ h₇ h₈
  · exact ⟨.char '"', fun rest => by simp [literal?, escaped?], fun ps => by rw [h₁, join?_char]⟩
  · exact ⟨.char '\\', fun rest => by simp [literal?, escaped?], fun ps => by rw [h₂, join?_char]⟩
  · exact ⟨.char '\x08', fun rest => by simp [literal?, escaped?], fun ps => by rw [h₃, join?_char]⟩
  · exact ⟨.char '\x0c', fun rest => by simp [literal?, escaped?], fun ps => by rw [h₄, join?_char]⟩
  · exact ⟨.char '\n', fun rest => by simp [literal?, escaped?], fun ps => by rw [h₅, join?_char]⟩
  · exact ⟨.char '\r', fun rest => by simp [literal?, escaped?], fun ps => by rw [h₆, join?_char]⟩
  · exact ⟨.char '\t', fun rest => by simp [literal?, escaped?], fun ps => by rw [h₇, join?_char]⟩
  · refine ⟨.unit c.toNat, fun rest => ?_, join?_control h₈⟩
    simp only [written_cons, written_nil, List.cons_append, List.nil_append, literal?,
      hexUnit?_control h₈, Option.bind_eq_bind, Option.bind_some]
  · refine ⟨.char c, fun rest => ?_, join?_char c⟩
    simp only [written_cons, written_nil, List.cons_append, List.nil_append]
    rw [literal?]
    · simp [h₂, h₈]
    · exact h₁
    · intros; exact h₂ ‹_›
    · intros; exact h₂ ‹_›

/-- **A string literal** is read back as its text, and the reading stops behind its quote. -/
theorem literal?_quote (cs : List Char) (rest : List Symbol) :
    ∃ ps, literal? (written (cs.flatMap escape) ++ .char '"' :: rest) = some (ps, rest) ∧
      join? ps = some cs := by
  induction cs with
  | nil => exact ⟨[], by simp [literal?], rfl⟩
  | cons c cs ih =>
    obtain ⟨ps, hps, hj⟩ := ih
    obtain ⟨p, hp, hjp⟩ := literal?_escape c
    refine ⟨p :: ps, ?_, ?_⟩
    · rw [List.flatMap_cons, written_append, List.append_assoc, hp, hps]
      rfl
    · rw [hjp, hj]
      rfl

end Token

/-! ### Integers -/

namespace Number

/-- The decimal digits of a natural number. -/
def decimal (n : Nat) : List Nat := (Nat.toDigits 10 n).filterMap (digit? 10)

theorem ofInt_eq (i : Int) : ofInt i = ⟨decide (i < 0), decimal i.natAbs, [], none⟩ := rfl

theorem decimal_of_lt {n : Nat} (h : n < 10) : decimal n = [n] := by
  rw [decimal, Nat.toDigits_of_lt_base h,
    List.filterMap_cons_some (digit?_digitChar (by decide) h), List.filterMap_nil]

theorem decimal_of_le {n : Nat} (h : 10 ≤ n) : decimal n = decimal (n / 10) ++ [n % 10] := by
  have hd := digit?_digitChar (by decide) (Nat.mod_lt n (by decide : 0 < 10))
  rw [decimal, Nat.toDigits_of_base_le (by decide) h, List.filterMap_append,
    List.filterMap_cons_some hd, List.filterMap_nil]
  rfl

theorem decimal_ne_nil (n : Nat) : decimal n ≠ [] := by
  rcases Nat.lt_or_ge n 10 with h | h
  · rw [decimal_of_lt h]
    exact List.cons_ne_nil _ _
  · rw [decimal_of_le h]
    exact List.append_ne_nil_of_right_ne_nil _ (List.cons_ne_nil _ _)

theorem decimal_lt (n : Nat) : ∀ d ∈ decimal n, d < 10 := by
  induction n using digits_induction (r := 10) (by decide) with
  | digit n h =>
    intro d hd
    rw [decimal_of_lt h, List.mem_singleton] at hd
    omega
  | next n h ih =>
    intro d hd
    rw [decimal_of_le h, List.mem_append, List.mem_singleton] at hd
    rcases hd with hd | rfl
    · exact ih d hd
    · exact Nat.mod_lt n (by decide)

/-- No superfluous zero stands in front. -/
theorem decimal_ne_zero_cons (n : Nat) : ∀ d ds, decimal n ≠ 0 :: d :: ds := by
  induction n using Nat.strongRecOn with
  | ind n ih =>
    intro d ds he
    rcases Nat.lt_or_ge n 10 with h | h
    · rw [decimal_of_lt h] at he
      simp at he
    · rw [decimal_of_le h] at he
      match hw : decimal (n / 10), he with
      | [], he => exact decimal_ne_nil _ hw
      | [a], he =>
        obtain ⟨rfl, -⟩ := List.cons.inj he
        rcases Nat.lt_or_ge (n / 10) 10 with h' | h'
        · rw [decimal_of_lt h', List.cons.injEq] at hw
          omega
        · have hl := congrArg List.length (decimal_of_le h')
          have := List.length_pos_iff.mpr (decimal_ne_nil (n / 10 / 10))
          rw [hw, List.length_append] at hl
          simp only [List.length_cons, List.length_nil] at hl
          omega
      | a :: b :: r, he =>
        obtain ⟨rfl, -⟩ := List.cons.inj he
        exact ih (n / 10) (by omega) b r hw

end Number

/-- What may follow a value: nothing, a comma or a closing bracket. -/
def Closes : List Symbol → Prop
  | [] => True
  | s :: _ => s = .char ',' ∨ s = .char ']' ∨ s = .char '\x7d'

namespace Token

theorem digits_of_closes {rest : List Symbol} (h : Closes rest) : digits rest = ([], rest) := by
  match rest, h with
  | [], _ => rfl
  | _ :: _, .inl rfl => rfl
  | _ :: _, .inr (.inl rfl) => rfl
  | _ :: _, .inr (.inr rfl) => rfl

theorem digits_written {ds : List Nat} (hd : ∀ d ∈ ds, d < 10) {rest : List Symbol}
    (hr : Closes rest) : digits (written (ds.map Nat.digitChar) ++ rest) = (ds, rest) := by
  induction ds with
  | nil => exact digits_of_closes hr
  | cons d ds ih =>
    rw [List.map_cons, written_cons, List.cons_append, digits,
      digit?_digitChar (by decide) (hd d (by simp))]
    simp only
    rw [ih fun e he => hd e (by simp [he])]

theorem fraction?_of_closes {rest : List Symbol} (h : Closes rest) :
    fraction? rest = some ([], rest) := by
  match rest, h with
  | [], _ => rfl
  | _ :: _, .inl rfl => rfl
  | _ :: _, .inr (.inl rfl) => rfl
  | _ :: _, .inr (.inr rfl) => rfl

theorem exponent?_of_closes {rest : List Symbol} (h : Closes rest) :
    exponent? rest = some (none, rest) := by
  match rest, h with
  | [], _ => rfl
  | _ :: _, .inl rfl => rfl
  | _ :: _, .inr (.inl rfl) => rfl
  | _ :: _, .inr (.inr rfl) => rfl

/-- **The digits of an integer** are read back, and the reading stops behind them. -/
theorem unsigned?_decimal (negative : Bool) (n : Nat) {rest : List Symbol} (hr : Closes rest) :
    unsigned? negative (written ((Number.decimal n).map Nat.digitChar) ++ rest) =
      some (⟨negative, Number.decimal n, [], none⟩, rest) := by
  unfold unsigned?
  rw [digits_written (Number.decimal_lt n) hr]
  split
  next he => exact absurd (congrArg Prod.fst he) (Number.decimal_ne_nil n)
  next he => exact absurd (congrArg Prod.fst he) (Number.decimal_ne_zero_cons n _ _)
  next whole s _ _ he =>
    cases he
    simp only [fraction?_of_closes hr, exponent?_of_closes hr, Option.bind_eq_bind,
      Option.bind_some, Option.pure_def]

end Token
end EdgeGateway.Json

import Mathlib.Algebra.Group.Nat.Defs
import Mathlib.Tactic.SplitIfs
import EdgeGateway.Proofs.Text.Digit
import EdgeGateway.Time.Rfc3339

/-! # Instants are read as they are written

The text of an instant is a row of numbers with marks between them. A number is written with at
least so many digits, and reading stops behind them, where so many digits are wanted or where
something else follows (`number?_padded`). The reader takes the parts off one by one, each for an
arbitrary rest of the text, and makes the instant again: one of any year, with a part of a second of
any precision, and within a leap second (`parse?_render`). -/

namespace EdgeGateway.Rfc3339

open Text

/-! ### Numbers -/

/-- The text does not go on with a digit. -/
def Stops : List Char → Prop
  | [] => True
  | c :: _ => c.isDigit = false

section Numbers

variable {w n : Nat} {rest : List Char}

theorem isDigit_of_mem_padded {c : Char} (h : c ∈ padded w n) : c.isDigit = true := by
  unfold padded at h
  rcases List.mem_append.mp h with h | h
  · rw [List.eq_of_mem_replicate h]
    rfl
  · exact Nat.isDigit_of_mem_toDigits (by decide) (by decide) h

theorem padded_ne_nil (w n : Nat) : padded w n ≠ [] :=
  List.append_ne_nil_of_right_ne_nil _ Nat.toDigits_ne_nil

theorem length_padded (hw : 0 < w) (hn : n < 10 ^ w) : (padded w n).length = w := by
  have hl := (Nat.length_toDigits_le_iff (by decide) hw).mpr hn
  unfold padded
  rw [List.length_append, List.length_replicate]
  omega

theorem ofDigits_padded (w n : Nat) : ofDigits 10 ((padded w n).filterMap (digit? 10)) = n := by
  have hzero : digit? 10 '0' = some 0 := rfl
  rw [padded, List.filterMap_append, List.filterMap_replicate_of_some hzero,
    ofDigits_replicate_zero_append, ofDigits_toDigits (by decide) (by decide)]

theorem takeWhile_take_of_stops (h : Stops rest) (m : Nat) :
    (rest.take m).takeWhile Char.isDigit = [] := by
  match rest, m with
  | [], _ => rw [List.take_nil, List.takeWhile_nil]
  | c :: cs, 0 => rfl
  | c :: cs, m + 1 =>
    have hc : c.isDigit = false := h
    rw [List.take_succ_cons, List.takeWhile_cons_of_neg (by simp [hc])]

theorem dropWhile_of_stops (h : Stops rest) : rest.dropWhile Char.isDigit = rest := by
  match rest with
  | [] => rfl
  | c :: cs =>
    have hc : c.isDigit = false := h
    rw [List.dropWhile_cons_of_neg (by simp [hc])]

/-- **A number is read as it was written**: either all the digits that are wanted are there, or
something else follows. -/
theorem number?_padded {limit : Nat} (hl : (padded w n).length ≤ limit)
    (hr : (padded w n).length = limit ∨ Stops rest) :
    number? limit (padded w n ++ rest) = some (n, rest) := by
  have hdigits : ((padded w n ++ rest).take limit).takeWhile Char.isDigit = padded w n := by
    rw [List.take_append, List.take_of_length_le hl,
      List.takeWhile_append_of_pos fun c => isDigit_of_mem_padded]
    rcases hr with hr | hr
    · rw [hr, Nat.sub_self, List.take_zero, List.takeWhile_nil, List.append_nil]
    · rw [takeWhile_take_of_stops hr, List.append_nil]
  unfold number?
  simp only [hdigits, List.isEmpty_iff, if_neg (padded_ne_nil w n), ofDigits_padded,
    List.drop_left]

theorem isBlank_of_isDigit {c : Char} (h : c.isDigit = true) : isBlank c = false := by
  rw [Char.isDigit_iff_toNat] at h
  simp only [Char.reduceToNat] at h
  simp only [isBlank, Bool.or_eq_false_iff, Bool.and_eq_false_iff, decide_eq_false_iff_not,
    beq_eq_false_iff_ne, ne_eq]
  omega

theorem trimStart_cons {c : Char} (h : isBlank c = false) (cs : List Char) :
    trimStart (c :: cs) = c :: cs :=
  List.dropWhile_cons_of_neg (by simp [h])

theorem exists_padded_cons (w n : Nat) :
    ∃ c cs, padded w n = c :: cs ∧ c.isDigit = true := by
  obtain ⟨c, cs, h⟩ := List.exists_cons_of_ne_nil (padded_ne_nil w n)
  exact ⟨c, cs, h, isDigit_of_mem_padded (h ▸ List.mem_cons_self)⟩

/-- No blanks stand before a number. -/
theorem trimStart_padded (w n : Nat) (rest : List Char) :
    trimStart (padded w n ++ rest) = padded w n ++ rest := by
  obtain ⟨c, cs, h, hc⟩ := exists_padded_cons w n
  rw [h, List.cons_append, trimStart_cons (isBlank_of_isDigit hc)]

theorem field?_padded (hw : 0 < w) (hn : n < 10 ^ w) (rest : List Char) :
    field? w (padded w n ++ rest) = some (n, rest) := by
  have hl := length_padded hw hn
  rw [field?, trimStart_padded, number?_padded (by omega) (Or.inl hl)]

end Numbers

/-! ### The parts of an instant -/

theorem mark?_cons {c : Char} (h : isBlank c = false) (rest : List Char) :
    mark? c (c :: rest) = some rest := by
  unfold mark?
  rw [trimStart_cons h]
  exact if_pos rfl

/-- The digits of a year end at the mark that follows. -/
theorem number?_year (n : Nat) (rest : List Char) :
    number? (padded 4 n ++ '-' :: rest).length (padded 4 n ++ '-' :: rest) =
      some (n, '-' :: rest) :=
  number?_padded (by rw [List.length_append]; omega) (Or.inr rfl)

/-- A year without a sign has four digits. -/
theorem year?_padded {n : Nat} (hn : n < 10000) (rest : List Char) :
    year? (padded 4 n ++ rest) = some ((n : Int), rest) := by
  have hnum : number? 4 (padded 4 n ++ rest) = some (n, rest) := by
    have hl : (padded 4 n).length = 4 := length_padded (by decide) hn
    exact number?_padded (by omega) (Or.inl hl)
  unfold year?
  rw [trimStart_padded]
  obtain ⟨c, cs, hcs, hc⟩ := exists_padded_cons 4 n
  rw [hcs, List.cons_append] at hnum ⊢
  -- a digit is not the sign that the other two forms begin with
  split
  next heq =>
    obtain ⟨rfl, -⟩ := List.cons.inj heq
    exact absurd hc (by decide)
  next heq =>
    obtain ⟨rfl, -⟩ := List.cons.inj heq
    exact absurd hc (by decide)
  next => rw [hnum, Option.map_some]

/-- **A year is read as it was written**, with a sign or without one. -/
theorem year?_yearText (year : Int) (rest : List Char) :
    year? (yearText year ++ '-' :: rest) = some (year, '-' :: rest) := by
  unfold yearText
  split_ifs with hneg hlow
  · have hnum := number?_year year.natAbs rest
    rw [List.cons_append]
    unfold year?
    rw [trimStart_cons rfl]
    simp only [hnum, Option.map_some]
    congr 2
    omega
  · rw [year?_padded (by omega), Int.toNat_of_nonneg (by omega)]
  · have hnum := number?_year year.toNat rest
    rw [List.cons_append]
    unfold year?
    rw [trimStart_cons rfl]
    simp only [hnum, Option.map_some]
    rw [Int.toNat_of_nonneg (by omega)]

theorem nanos?_point {w n : Nat} (hw : 0 < w) (hw9 : w ≤ 9) (hn : n < 10 ^ w) {rest : List Char}
    (hr : Stops rest) :
    nanos? ('.' :: padded w n ++ rest) = some (n * 10 ^ (9 - w), rest) := by
  have hl := length_padded hw hn
  have hnum : number? 9 (padded w n ++ rest) = some (n, rest) :=
    number?_padded (by omega) (Or.inr hr)
  have hused : (padded w n ++ rest).length - rest.length = w := by
    rw [List.length_append]
    omega
  rw [List.cons_append]
  simp only [nanos?, hnum, hused, dropWhile_of_stops hr, Option.bind_eq_bind, Option.bind_some,
    Option.pure_def]
  rfl

/-- **A part of a second is read as it was written**, with the fewest groups of digits that are
exact. -/
theorem nanos?_fractionText {n : Nat} (hn : n < 1000000000) :
    nanos? (fractionText n ++ ['Z']) = some (n, ['Z']) := by
  have hz : Stops ['Z'] := rfl
  unfold fractionText
  split_ifs with h0 h3 h6
  · rw [h0]
    rfl
  · rw [nanos?_point (by decide) (by decide) (by omega) hz]
    congr 2
    omega
  · rw [nanos?_point (by decide) (by decide) (by omega) hz]
    congr 2
    omega
  · rw [nanos?_point (by decide) (by decide) hn hz]
    congr 2
    omega

/-! ### Instants -/

theorem daysInMonth_le (year : Int) (month : Nat) : daysInMonth year month ≤ 31 := by
  have hfebruary : (if isLeapYear year then 29 else 28) ≤ 31 := by split_ifs <;> omega
  unfold daysInMonth
  split
  all_goals first | exact hfebruary | omega

theorem month_le (d : Date) : d.month ≤ 12 := by
  have hpos := d.day_pos
  have hle := d.day_le
  unfold daysInMonth at hle
  split at hle <;> omega

theorem render_eq (i : Instant) : render i =
    yearText i.date.year ++ '-' :: (padded 2 i.date.month ++ '-' :: (padded 2 i.date.day ++
      'T' :: (padded 2 (i.second / 3600) ++ ':' :: (padded 2 (i.second / 60 % 60) ++
        ':' :: (padded 2 (i.second % 60 + if 1000000000 ≤ i.nanos then 1 else 0) ++
          (fractionText (i.nanos % 1000000000) ++ ['Z'])))))) := by
  simp only [render, List.append_assoc, List.cons_append]

theorem bind_of_eq_some {α β : Type} {x : Option α} {a : α} {f : α → Option β} (h : x = some a) :
    (x >>= f) = f a := by
  rw [h]
  rfl

/-- A second is written as 60 just within a leap second. -/
theorem local?_render (i : Instant) : local? (render i) = some (i, ['Z']) := by
  have hmonth := month_le i.date
  have hday := Nat.le_trans i.date.day_le (daysInMonth_le i.date.year i.date.month)
  have hlt := i.second_lt
  have hdash : isBlank '-' = false := rfl
  have hcolon : isBlank ':' = false := rfl
  have hs : i.second % 60 + (if 1000000000 ≤ i.nanos then 1 else 0) < 10 ^ 2 := by
    split_ifs <;> omega
  have hfraction := nanos?_fractionText (Nat.mod_lt i.nanos (by decide : 0 < 1000000000))
  rw [render_eq]
  refine (bind_of_eq_some (year?_yearText i.date.year _)).trans ?_
  refine (bind_of_eq_some (mark?_cons hdash _)).trans ?_
  refine (bind_of_eq_some (field?_padded (by decide) (by omega) _)).trans ?_
  refine (bind_of_eq_some (mark?_cons hdash _)).trans ?_
  refine (bind_of_eq_some (field?_padded (by decide) (by omega) _)).trans ?_
  refine (if_pos (by decide)).trans ((bind_of_eq_some rfl).trans ?_)
  refine (bind_of_eq_some (field?_padded (by decide) (by omega) _)).trans ?_
  refine (bind_of_eq_some (mark?_cons hcolon _)).trans ?_
  refine (bind_of_eq_some (field?_padded (by decide) (by omega) _)).trans ?_
  refine (bind_of_eq_some (mark?_cons hcolon _)).trans ?_
  refine (bind_of_eq_some (field?_padded (by decide) hs _)).trans ?_
  refine (bind_of_eq_some hfraction).trans ((bind_of_eq_some i.date.ofParts?_self).trans ?_)
  -- what is left is to put the parts of the time together again
  obtain ⟨date, second, nanos, hsecond, hnanos, hleap⟩ := i
  dsimp only at hlt hs ⊢
  have h60 : (second % 60 + (if 1000000000 ≤ nanos then 1 else 0) = 60) =
      (1000000000 ≤ nanos) := by
    split_ifs <;> simp only [eq_iff_iff] <;> omega
  have hsec : second / 3600 * 3600 + second / 60 % 60 * 60 + (if 1000000000 ≤ nanos then 59 else
      second % 60 + if 1000000000 ≤ nanos then 1 else 0) = second := by
    split_ifs <;> omega
  have hnan : nanos % 1000000000 + (if 1000000000 ≤ nanos then 1000000000 else 0) = nanos := by
    split_ifs <;> omega
  simp only [h60, hsec, hnan]
  rw [if_pos (by split_ifs <;> omega), dif_pos ⟨hsecond, hnanos, hleap⟩]
  rfl

theorem ofLocal?_zero (i : Instant) : i.ofLocal? 0 = some i := by
  obtain ⟨date, second, nanos, hsecond, hnanos, hleap⟩ := i
  unfold Instant.ofLocal?
  have htotal : (((second : Int) - 0) % 86400).toNat = second := by omega
  simp only [htotal]
  rw [if_neg (by decide), if_neg (by omega), if_neg (by omega)]
  simp only [Option.bind_eq_bind, Option.bind_some, dif_pos hleap]
  rfl

/-- **An instant is read as it was written.** -/
theorem parse?_render (i : Instant) : parse? (render i) = some i := by
  unfold parse?
  rw [local?_render]
  exact ofLocal?_zero i

end EdgeGateway.Rfc3339

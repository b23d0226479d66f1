import EdgeGateway.Json.Number
import EdgeGateway.Text.Digit
import EdgeGateway.Text.Utf8

/-!
# The tokens of a JSON text

Blanks separate tokens and are dropped; the first offence against the spelling of tokens ends the
list with `junk`. A string literal whose escapes and bytes make no Unicode text is a token all the
same, without a value: only a reader that needs its text refuses it.
-/

namespace EdgeGateway.Json

open EdgeGateway.Text (Symbol digit? hexDigit? ofDigits)

inductive Token
  | arrayStart
  | arrayEnd
  | objectStart
  | objectEnd
  | comma
  | colon
  | null
  | bool (b : Bool)
  | number (n : Number)
  | text (s : Option String)
  | junk
  deriving DecidableEq, Inhabited

namespace Token

/-! ### String literals -/

/-- A part of a string literal: a character, a UTF-16 unit written as `\u....`, or a stray byte. -/
inductive Piece
  | char (c : Char)
  | unit (u : Nat)
  | stray
  deriving DecidableEq, Inhabited

/-- The unit that four hexadecimal digits write. -/
def hexUnit? (a b c d : Char) : Option Nat := do
  let a ← hexDigit? a
  let b ← hexDigit? b
  let c ← hexDigit? c
  let d ← hexDigit? d
  return ((a * 16 + b) * 16 + c) * 16 + d

/-- The character after a backslash that stands for another one. -/
def escaped? (c : Char) : Option Char :=
  match c with
  | '"' => some '"'
  | '\\' => some '\\'
  | '/' => some '/'
  | 'b' => some '\x08'
  | 'f' => some '\x0c'
  | 'n' => some '\n'
  | 'r' => some '\r'
  | 't' => some '\t'
  | _ => none

/-- The pieces of a literal up to its closing quote, and what follows the quote. -/
def literal? : List Symbol → Option (List Piece × List Symbol)
  | [] => none
  | .stray _ :: rest => (literal? rest).map fun (ps, r) => (.stray :: ps, r)
  | .char '"' :: rest => some ([], rest)
  | .char '\\' :: .char 'u' :: .char a :: .char b :: .char c :: .char d :: rest => do
    let u ← hexUnit? a b c d
    (literal? rest).map fun (ps, r) => (.unit u :: ps, r)
  | .char '\\' :: .char c :: rest => do
    let e ← escaped? c
    (literal? rest).map fun (ps, r) => (.char e :: ps, r)
  | .char c :: rest =>
    if c == '\\' || c.toNat < 0x20 then none
    else (literal? rest).map fun (ps, r) => (.char c :: ps, r)

/-- The text of a literal; a surrogate without its partner has none, nor has a stray byte. -/
def join? : List Piece → Option (List Char)
  | [] => some []
  | .char c :: rest => (join? rest).map (c :: ·)
  | .stray :: _ => none
  | .unit u :: rest =>
    if u < 0xD800 || 0xE000 ≤ u then (join? rest).map (Char.ofNat u :: ·)
    else if u < 0xDC00 then
      match rest with
      | .unit v :: rest' =>
        if 0xDC00 ≤ v && v < 0xE000 then
          (join? rest').map (Char.ofNat (0x10000 + (u - 0xD800) * 0x400 + (v - 0xDC00)) :: ·)
        else none
      | _ => none
    else none

theorem length_of_literal? {s : List Symbol} {ps : List Piece} {r : List Symbol}
    (h : literal? s = some (ps, r)) : r.length < s.length := by
  fun_induction literal? s generalizing ps r with
  | case1 => simp at h
  | case2 b rest ih =>
    obtain ⟨⟨ps', r'⟩, h', he⟩ := Option.map_eq_some_iff.1 h
    cases he
    have := ih h'
    simp only [List.length_cons]; omega
  | case3 rest => simp only [Option.some.injEq, Prod.mk.injEq] at h; simp [← h.2]
  | case4 a b c d rest ih =>
    obtain ⟨u, _, h⟩ := Option.bind_eq_some_iff.1 h
    obtain ⟨⟨ps', r'⟩, h', he⟩ := Option.map_eq_some_iff.1 h
    cases he
    have := ih h'
    simp only [List.length_cons]; omega
  | case5 c rest _ ih =>
    obtain ⟨u, _, h⟩ := Option.bind_eq_some_iff.1 h
    obtain ⟨⟨ps', r'⟩, h', he⟩ := Option.map_eq_some_iff.1 h
    cases he
    have := ih h'
    simp only [List.length_cons]; omega
  | case6 => simp at h
  | case7 c rest _ _ _ _ ih =>
    obtain ⟨⟨ps', r'⟩, h', he⟩ := Option.map_eq_some_iff.1 h
    cases he
    have := ih h'
    simp only [List.length_cons]; omega

/-! ### Numbers -/

/-- The digits at the front, and what follows them. -/
def digits : List Symbol → List Nat × List Symbol
  | .char c :: rest =>
    match digit? 10 c with
    | some d => let (ds, r) := digits rest; (d :: ds, r)
    | none => ([], .char c :: rest)
  | s => ([], s)

theorem length_digits (s : List Symbol) : (digits s).1.length + (digits s).2.length = s.length := by
  fun_induction digits s with
  | case1 c rest d hd ds r heq ih => rw [heq] at ih; simp only [List.length_cons] at *; omega
  | case2 => simp
  | case3 => simp

/-- A point and the digits after it, which must not be missing. -/
def fraction? : List Symbol → Option (List Nat × List Symbol)
  | .char '.' :: rest =>
    match digits rest with
    | ([], _) => none
    | (d :: ds, r) => some (d :: ds, r)
  | s => some ([], s)

/-- The digits of an exponent after its sign. -/
def power? (negative : Bool) (s : List Symbol) : Option (Option Int × List Symbol) :=
  match digits s with
  | ([], _) => none
  | (d :: ds, r) =>
    let e : Int := ofDigits 10 (d :: ds)
    some (some (if negative then -e else e), r)

/-- The letter of an exponent, its sign and its digits. -/
def exponent? : List Symbol → Option (Option Int × List Symbol)
  | .char c :: rest =>
    if c == 'e' || c == 'E' then
      match rest with
      | .char '+' :: r => power? false r
      | .char '-' :: r => power? true r
      | r => power? false r
    else some (none, .char c :: rest)
  | s => some (none, s)

/-- A number after its sign: no superfluous zero in front, and digits on both sides of a point. -/
def unsigned? (negative : Bool) (s : List Symbol) : Option (Number × List Symbol) :=
  match digits s with
  | ([], _) => none
  | (0 :: _ :: _, _) => none
  | (whole, s) => do
    let (fraction, s) ← fraction? s
    let (exponent, s) ← exponent? s
    return (⟨negative, whole, fraction, exponent⟩, s)

/-! ### The token at the front -/

def isBlank : Symbol → Bool
  | .char c => c == ' ' || c == '\t' || c == '\n' || c == '\r'
  | .stray _ => false

/-- Takes the given characters off the front. -/
def skip? : List Char → List Symbol → Option (List Symbol)
  | [], s => some s
  | c :: cs, .char c' :: s => if c = c' then skip? cs s else none
  | _ :: _, _ => none

/-- The token that begins with `c` and goes on in `rest`. -/
def starting? (c : Char) (rest : List Symbol) : Option (Token × List Symbol) :=
  match c with
  | '[' => some (.arrayStart, rest)
  | ']' => some (.arrayEnd, rest)
  | '\x7b' => some (.objectStart, rest)
  | '\x7d' => some (.objectEnd, rest)
  | ',' => some (.comma, rest)
  | ':' => some (.colon, rest)
  | 'n' => (skip? ['u', 'l', 'l'] rest).map fun r => (.null, r)
  | 't' => (skip? ['r', 'u', 'e'] rest).map fun r => (.bool true, r)
  | 'f' => (skip? ['a', 'l', 's', 'e'] rest).map fun r => (.bool false, r)
  | '"' => (literal? rest).map fun (ps, r) => (.text ((join? ps).map String.ofList), r)
  | '-' => (unsigned? true rest).map fun (n, r) => (.number n, r)
  | c => (unsigned? false (.char c :: rest)).map fun (n, r) => (.number n, r)

theorem length_of_skip? {cs : List Char} {s r : List Symbol} (h : skip? cs s = some r) :
    r.length ≤ s.length := by
  fun_induction skip? cs s with
  | case1 => simp at h; simp [h]
  | case2 c cs s ih => have := ih h; simp only [List.length_cons]; omega
  | case3 => simp at h
  | case4 => simp at h

theorem length_of_fraction? {s r : List Symbol} {ds : List Nat} (h : fraction? s = some (ds, r)) :
    r.length ≤ s.length := by
  unfold fraction? at h
  split at h
  next rest =>
    have hl := length_digits rest
    split at h
    · simp at h
    next d ds' r' heq =>
      rw [heq] at hl
      simp only [Option.some.injEq, Prod.mk.injEq] at h
      simp only [List.length_cons] at hl ⊢
      rw [← h.2]; omega
  · simp only [Option.some.injEq, Prod.mk.injEq] at h; simp [h.2]

theorem length_of_power? {b : Bool} {s r : List Symbol} {e : Option Int}
    (h : power? b s = some (e, r)) : r.length ≤ s.length := by
  have hl := length_digits s
  unfold power? at h
  split at h
  · simp at h
  next d ds r' heq =>
    rw [heq] at hl
    simp only [Option.some.injEq, Prod.mk.injEq] at h
    simp only [List.length_cons] at hl
    rw [← h.2]; omega

theorem length_of_exponent? {s r : List Symbol} {e : Option Int}
    (h : exponent? s = some (e, r)) : r.length ≤ s.length := by
  unfold exponent? at h
  split at h
  next c rest =>
    split at h
    · split at h
      all_goals have := length_of_power? h; simp only [List.length_cons] at *; omega
    · simp only [Option.some.injEq, Prod.mk.injEq] at h; simp [← h.2]
  · simp only [Option.some.injEq, Prod.mk.injEq] at h; simp [h.2]

theorem length_of_unsigned? {b : Bool} {s r : List Symbol} {n : Number}
    (h : unsigned? b s = some (n, r)) : r.length < s.length := by
  have hl := length_digits s
  unfold unsigned? at h
  split at h
  · simp at h
  · simp at h
  next whole s' hne _ heq =>
    obtain ⟨⟨f, s₁⟩, hf, h⟩ := Option.bind_eq_some_iff.1 h
    obtain ⟨⟨e, s₂⟩, he, h⟩ := Option.bind_eq_some_iff.1 h
    simp only [Option.pure_def, Option.some.injEq, Prod.mk.injEq] at h
    have h₁ := length_of_fraction? hf
    have h₂ := length_of_exponent? he
    rw [heq] at hl
    have : whole ≠ [] := hne
    have := List.length_pos_iff.2 this
    simp only at hl h₁ h₂
    rw [← h.2]; omega

theorem length_of_starting? {c : Char} {s r : List Symbol} {t : Token}
    (h : starting? c s = some (t, r)) : r.length ≤ s.length := by
  unfold starting? at h
  split at h
  iterate 6 simp only [Option.some.injEq, Prod.mk.injEq] at h; simp [h.2]
  iterate 3
    obtain ⟨r', h', he⟩ := Option.map_eq_some_iff.1 h
    cases he
    have := length_of_skip? h'
    omega
  · obtain ⟨⟨ps, r'⟩, h', he⟩ := Option.map_eq_some_iff.1 h
    cases he
    have := length_of_literal? h'
    omega
  · obtain ⟨⟨ps, r'⟩, h', he⟩ := Option.map_eq_some_iff.1 h
    cases he
    have := length_of_unsigned? h'
    omega
  · obtain ⟨⟨ps, r'⟩, h', he⟩ := Option.map_eq_some_iff.1 h
    cases he
    have := length_of_unsigned? h'
    simp only [List.length_cons] at this
    omega

end Token

open Token in
/-- The tokens of a text, up to the first offence. -/
def tokens (s : List Symbol) : List Token :=
  match s with
  | [] => []
  | .stray _ :: _ => [.junk]
  | .char c :: rest =>
    if isBlank (.char c) then tokens rest
    else
      match _h : starting? c rest with
      | none => [.junk]
      | some (t, rest') => t :: tokens rest'
termination_by s.length
decreasing_by
  · simp
  · have := length_of_starting? _h; simp only [List.length_cons]; omega

end EdgeGateway.Json

/-!
# Tagged binary data

Binary data as a list of blocks, each with a tag, a length and contents; a sequence holds blocks
again. Kept are the blocks that tell a key: sequences, strings of bits or bytes, and identifiers.
-/

namespace EdgeGateway.Token

/-- A block of tagged data. -/
inductive Block
  | sequence (items : List Block)
  | bits (contents : List UInt8)
  | octets (contents : List UInt8)
  | identifier (arcs : List Nat)
  | other
  deriving Inhabited

namespace Block

/-- A number in digits of seven bits, of which all but the last have their highest bit set. -/
def base128? (n : Nat) : List UInt8 → Option (Nat × List UInt8)
  | [] => none
  | b :: bs =>
    let n := n * 128 + b.toNat % 128
    if b < 128 then some (n, bs) else base128? n bs

theorem length_of_base128? {n m : Nat} {bs rest : List UInt8}
    (h : base128? n bs = some (m, rest)) : rest.length < bs.length := by
  induction bs generalizing n with
  | nil => simp [base128?] at h
  | cons b bs ih =>
    simp only [base128?] at h
    split at h
    · simp only [Option.some.injEq, Prod.mk.injEq] at h; simp [← h.2]
    · have := ih h; simp only [List.length_cons]; omega

/-- A number of `n` bytes, the highest first. -/
def number? : Nat → Nat → List UInt8 → Option (Nat × List UInt8)
  | 0, v, bs => some (v, bs)
  | _ + 1, _, [] => none
  | n + 1, v, b :: bs => number? n (v * 256 + b.toNat) bs

theorem length_of_number? {n v m : Nat} {bs rest : List UInt8}
    (h : number? n v bs = some (m, rest)) : rest.length ≤ bs.length := by
  induction n generalizing v bs with
  | zero => simp only [number?, Option.some.injEq, Prod.mk.injEq] at h; simp [h.2]
  | succ n ih =>
    cases bs with
    | nil => simp [number?] at h
    | cons b bs => have := ih h; simp only [List.length_cons]; omega

/-- A length: a byte, or the number of bytes it takes with the highest bit set, and these. -/
def length? : List UInt8 → Option (Nat × List UInt8)
  | [] => none
  | b :: bs =>
    if b < 128 then some (b.toNat, bs)
    else if 8 < b.toNat - 128 then none
    else number? (b.toNat - 128) 0 bs

theorem length_of_length? {m : Nat} {bs rest : List UInt8} (h : length? bs = some (m, rest)) :
    rest.length < bs.length := by
  cases bs with
  | nil => simp [length?] at h
  | cons b bs =>
    simp only [length?] at h
    split at h
    · simp only [Option.some.injEq, Prod.mk.injEq] at h; simp [← h.2]
    · split at h
      · simp at h
      · have := length_of_number? h; simp only [List.length_cons]; omega

/-- A tag: its class is the universal one, and its number. -/
structure Tag where
  universal : Bool
  number : Nat
  deriving DecidableEq, Inhabited

/-- A tag with the length of its contents. -/
def head? : List UInt8 → Option (Tag × Nat × List UInt8)
  | [] => none
  | b :: bs =>
    match (if b % 32 = 31 then base128? 0 bs else some (b.toNat % 32, bs)) with
    | none => none
    | some (number, bs) => (length? bs).map fun (n, bs) => (⟨b < 64, number⟩, n, bs)

theorem length_of_head? {t : Tag} {n : Nat} {bs rest : List UInt8}
    (h : head? bs = some (t, n, rest)) : rest.length < bs.length := by
  cases bs with
  | nil => simp [head?] at h
  | cons b bs =>
    simp only [head?] at h
    split at h
    · simp at h
    next number bs' h₁ =>
      obtain ⟨⟨n', bs''⟩, h₂, h⟩ := Option.map_eq_some_iff.1 h
      have h₂ := length_of_length? h₂
      have h₁ : bs'.length ≤ bs.length := by
        split at h₁
        · exact Nat.le_of_lt (length_of_base128? h₁)
        · simp only [Option.some.injEq, Prod.mk.injEq] at h₁; simp [h₁.2]
      simp only [Prod.mk.injEq] at h
      simp only [List.length_cons]
      rw [← h.2.2]; omega

/-- The arcs of an identifier after its first byte. -/
def arcs? (bs : List UInt8) : Option (List Nat) :=
  match h : base128? 0 bs with
  | none => if bs.isEmpty then some [] else none
  | some (n, rest) =>
    have := length_of_base128? h
    (arcs? rest).map (n :: ·)
termination_by bs.length

/-- An identifier; its first byte holds two arcs. -/
def identifier? : List UInt8 → Option Block
  | [] => none
  | b :: bs =>
    let first := min (b.toNat / 40) 2
    (arcs? bs).map fun arcs => .identifier (first :: (b.toNat - 40 * first) :: arcs)

def isUtf8 (bs : List UInt8) : Bool := (String.fromUTF8? ⟨bs.toArray⟩).isSome

/-- A byte of the printable strings. -/
def isPrintable (b : UInt8) : Bool :=
  let c := Char.ofNat b.toNat
  b < 128 && (c.isAlphanum || " '()+,-./:=?".toList.contains c)

/-- A block without blocks inside. -/
def leaf? (tag : Tag) (contents : List UInt8) : Option Block :=
  if !tag.universal then some .other
  else
    match tag.number with
    | 1 => if contents.length = 1 then some .other else none
    | 3 => some (.bits (contents.drop 1))
    | 4 => some (.octets contents)
    | 6 => identifier? contents
    | 12 | 20 => if isUtf8 contents then some .other else none
    | 19 => if contents.all isPrintable then some .other else none
    | 23 => if contents.length = 13 then some .other else none
    | _ => some .other

/-- Reads the blocks of some bytes, of which there must be one at least. -/
def parse? (bs : List UInt8) : Option (List Block) :=
  match h : head? bs with
  | none => none
  | some (tag, n, rest) =>
    have := length_of_head? h
    if rest.length < n then none
    else do
      let block ←
        if tag = ⟨true, 16⟩ then (parse? (rest.take n)).map sequence
        else if tag = ⟨true, 17⟩ then (parse? (rest.take n)).map fun _ => other
        else leaf? tag (rest.take n)
      if rest.length = n then some [block] else (parse? (rest.drop n)).map (block :: ·)
termination_by bs.length
decreasing_by all_goals simp only [List.length_take, List.length_drop]; omega

mutual

/-- The first of the identifiers in a block, to any depth of sequences, that `f` knows. -/
def firstIdentifier? {α : Type} (f : List Nat → Option α) : Block → Option α
  | sequence items => firstIdentifierIn? f items
  | identifier arcs => f arcs
  | _ => none

def firstIdentifierIn? {α : Type} (f : List Nat → Option α) : List Block → Option α
  | [] => none
  | b :: bs => (b.firstIdentifier? f).or (firstIdentifierIn? f bs)

end

mutual

/-- The first string of bits or bytes in a block, to any depth of sequences. -/
def firstString? : Block → Option (List UInt8)
  | sequence items => firstStringIn? items
  | bits contents => some contents
  | octets contents => some contents
  | _ => none

def firstStringIn? : List Block → Option (List UInt8)
  | [] => none
  | b :: bs => b.firstString?.or (firstStringIn? bs)

end

end Block
end EdgeGateway.Token

import EdgeGateway.Net.Address
import EdgeGateway.Proofs.Text.Digit
import EdgeGateway.Text.Blank

/-! # Addresses are read as they are written

The canonical text of every address reads back as that address (`parse?_render`), so no two
addresses share one (`text_injective`). Along the way the reading of a number, of a dotted address
and of a row of groups is described for an arbitrary rest of the text. The other direction needs
less: a text that is read as an address has only digits, points and colons in it
(`isAddressChar_of_parse?`), and not many (`length_le_of_parse?`), whatever its spelling. -/

namespace EdgeGateway.Address

open Text

/-! ### The characters of an address -/

/-- A character that may stand in the text of an address. -/
def isAddressChar (c : Char) : Bool := (hexDigit? c).isSome || c == '.' || c == ':'

theorem isAddressChar_of_digit? {r : Nat} {c : Char} (h : (digit? r c).isSome) :
    isAddressChar c := by
  obtain ⟨d, hd⟩ := Option.isSome_iff_exists.1 h
  simp [isAddressChar, (Option.filter_eq_some_iff.1 hd).1]

/-- `rest` is what a reading has left of a text after at most `n` characters of an address. -/
def Leaves (n : Nat) (cs rest : List Char) : Prop :=
  ∃ front : List Char, cs = front ++ rest ∧ (∀ c ∈ front, isAddressChar c) ∧ front.length ≤ n

theorem Leaves.refl (n : Nat) (cs : List Char) : Leaves n cs cs := ⟨[], rfl, by simp, n.zero_le⟩

theorem Leaves.mono {m n : Nat} {cs rest : List Char} (h : Leaves m cs rest) (hmn : m ≤ n) :
    Leaves n cs rest := by
  obtain ⟨front, hcs, hchars, hlen⟩ := h
  exact ⟨front, hcs, hchars, Nat.le_trans hlen hmn⟩

theorem Leaves.trans {m n : Nat} {cs ds es : List Char} (h₁ : Leaves m cs ds)
    (h₂ : Leaves n ds es) : Leaves (m + n) cs es := by
  obtain ⟨f₁, rfl, h₁, hlen₁⟩ := h₁
  obtain ⟨f₂, rfl, h₂, hlen₂⟩ := h₂
  refine ⟨f₁ ++ f₂, (List.append_assoc ..).symm, fun c hc => ?_, ?_⟩
  · rcases List.mem_append.1 hc with hc | hc
    · exact h₁ c hc
    · exact h₂ c hc
  · rw [List.length_append]
    exact Nat.add_le_add hlen₁ hlen₂

theorem leaves_skip? {c : Char} (hc : isAddressChar c) {cs rest : List Char}
    (h : skip? c cs = some rest) : Leaves 1 cs rest := by
  match cs, h with
  | c' :: cs, h =>
    rw [skip?] at h
    split at h
    next he =>
      cases h
      exact ⟨[c'], rfl, by simpa [← he] using hc, Nat.le_refl 1⟩
    next => cases h

theorem leaves_number? {f : NumberForm} {n : Nat} (hn : f.maxDigits = some n)
    {cs rest : List Char} {v : Nat} (h : number? f cs = some (v, rest)) : Leaves n cs rest := by
  simp only [number?, hn, Option.any_some] at h
  split at h
  next => cases h
  next hform =>
    cases h
    refine ⟨_, (List.prefix_iff_eq_append.1 (List.takeWhile_prefix _)).symm, fun c hc => ?_, ?_⟩
    · exact isAddressChar_of_digit? (List.all_eq_true.1 List.all_takeWhile c hc)
    · simp only [Bool.or_eq_true, decide_eq_true_eq, not_or] at hform
      omega

theorem leaves_v4? {cs rest : List Char} {q : UInt8 × UInt8 × UInt8 × UInt8}
    (h : v4? cs = some (q, rest)) : Leaves 15 cs rest := by
  simp only [v4?, Option.bind_eq_bind, Option.bind_eq_some_iff, Option.pure_def,
    Option.some.injEq, Prod.mk.injEq, Prod.exists] at h
  obtain ⟨_, _, h₁, _, s₁, _, _, h₂, _, s₂, _, _, h₃, _, s₃, _, _, h₄, -, rfl⟩ := h
  have octet {ds es : List Char} {v : Nat} (h : number? octetForm ds = some (v, es)) :
      Leaves 3 ds es := leaves_number? rfl h
  have point {ds es : List Char} (h : skip? '.' ds = some es) : Leaves 1 ds es :=
    leaves_skip? (by decide) h
  exact (octet h₁).trans <| (point s₁).trans <| (octet h₂).trans <| (point s₂).trans <|
    (octet h₃).trans <| (point s₃).trans (octet h₄)

theorem leaves_groups (limit : Nat) (first : Bool) (cs : List Char) :
    Leaves (16 * limit) cs (groups limit first cs).2.2 := by
  induction limit generalizing first cs with
  | zero => exact .refl 0 cs
  | succ n ih =>
    rw [groups]
    split
    next => exact .refl _ cs
    next rest hrest =>
      have hsep : Leaves 1 cs rest := by
        split at hrest
        · cases hrest
          exact .refl 1 cs
        · exact leaves_skip? (by decide) hrest
      split
      next hv =>
        split at hv
        · exact (hsep.trans (leaves_v4? hv)).mono (by omega)
        · cases hv
      next =>
        split
        next => exact .refl _ cs
        next hg =>
          have hgroup : Leaves 4 rest _ := leaves_number? rfl hg
          exact (hsep.trans (hgroup.trans (ih false _))).mono (by omega)

theorem leaves_v6? {cs rest : List Char} {a : Address} (h : v6? cs = some (a, rest)) :
    Leaves 242 cs rest := by
  have hhead := leaves_groups 8 true cs
  simp only [v6?] at h
  split at h
  next =>
    cases h
    exact hhead.mono (by decide)
  next =>
    split at h
    next => cases h
    next =>
      simp only [Option.bind_eq_bind, Option.bind_eq_some_iff] at h
      obtain ⟨_, s₁, _, s₂, h⟩ := h
      split at h
      next =>
        cases h
        refine (hhead.trans <| (leaves_skip? (by decide) s₁).trans <|
          (leaves_skip? (by decide) s₂).trans (leaves_groups ..)).mono ?_
        omega
      next => cases h

theorem leaves_of_parse? {cs : List Char} {a : Address} (h : parse? cs = some a) :
    Leaves 242 cs [] := by
  rw [parse?] at h
  split at h
  next hf =>
    rw [front?] at hf
    split at hf
    next hv =>
      cases hf
      exact (leaves_v4? hv).mono (by decide)
    next => exact leaves_v6? hf
  next => cases h

/-- **A text that is read as an address** consists of digits, points and colons. -/
theorem isAddressChar_of_parse? {cs : List Char} {a : Address} (h : parse? cs = some a) :
    ∀ c ∈ cs, isAddressChar c := by
  obtain ⟨front, hfront, hchars, -⟩ := leaves_of_parse? h
  rwa [hfront, List.append_nil]

/-- A text that is read as an address is short. -/
theorem length_le_of_parse? {cs : List Char} {a : Address} (h : parse? cs = some a) :
    cs.length ≤ 242 := by
  obtain ⟨front, hfront, -, hlen⟩ := leaves_of_parse? h
  rwa [hfront, List.append_nil]

/-- The characters of an address can be printed, and none of them is a blank. -/
theorem toNat_of_isAddressChar {c : Char} (h : isAddressChar c) :
    0x21 ≤ c.toNat ∧ c.toNat < 0x7F := by
  rw [isAddressChar, Bool.or_eq_true, Bool.or_eq_true, beq_iff_eq, beq_iff_eq] at h
  rcases h with (h | rfl) | rfl
  · have := toNat_of_hexDigit? h
    omega
  · decide
  · decide

theorem isBlank_of_isAddressChar {c : Char} (h : isAddressChar c) : isBlank c = false := by
  have hrange := toNat_of_isAddressChar h
  simp only [isBlank, Bool.or_eq_false_iff, Bool.and_eq_false_iff, decide_eq_false_iff_not,
    beq_eq_false_iff_ne, ne_eq]
  omega

/-- The text of an address has no blanks at its ends. -/
theorem trim_of_parse? {cs : List Char} {a : Address} (h : parse? cs = some a) : trim cs = cs :=
  trim_of_not_isBlank fun c hc => isBlank_of_isAddressChar (isAddressChar_of_parse? h c hc)

/-! ### Numbers -/

/-- A number can be written in a form. -/
structure NumberForm.Fits (f : NumberForm) (n : Nat) : Prop where
  one_lt : 1 < f.radix
  le_sixteen : f.radix ≤ 16
  le_limit : n ≤ f.limit
  length_le : ∀ m ∈ f.maxDigits, (Nat.toDigits f.radix n).length ≤ m

theorem octetForm_fits (b : UInt8) : octetForm.Fits b.toNat where
  one_lt := by decide
  le_sixteen := by decide
  le_limit := Nat.le_of_lt_succ b.toNat_lt
  length_le m hm := by
    cases hm
    exact (Nat.length_toDigits_le_iff (by decide) (by decide)).2
      (Nat.lt_trans b.toNat_lt (by decide))

theorem groupForm_fits (g : UInt16) : groupForm.Fits g.toNat where
  one_lt := by decide
  le_sixteen := by decide
  le_limit := Nat.le_of_lt_succ g.toNat_lt
  length_le m hm := by
    cases hm
    exact (Nat.length_toDigits_le_iff (by decide) (by decide)).2 g.toNat_lt

/-- No digit of the radix stands at the front of the text. -/
def NoDigit (r : Nat) (cs : List Char) : Prop := cs.head?.bind (digit? r) = none

theorem NoDigit.mono {r s : Nat} (hrs : s ≤ r) {cs : List Char} (h : NoDigit r cs) :
    NoDigit s cs := by
  rw [NoDigit, Option.bind_eq_none_iff] at h ⊢
  intro c hc
  have hd := h c hc
  rw [digit?, Option.filter_eq_none_iff] at hd ⊢
  exact fun d hd' hlt => hd d hd' (by simp only [decide_eq_true_eq] at hlt ⊢; omega)

theorem NoDigit.takeWhile_eq {r : Nat} {cs : List Char} (h : NoDigit r cs) :
    (cs.takeWhile fun c => (digit? r c).isSome) = [] := by
  match cs, h with
  | [], _ => rfl
  | c :: cs, h =>
    rw [NoDigit, List.head?_cons, Option.bind_some] at h
    rw [List.takeWhile_cons_of_neg (by simp [h])]

theorem NoDigit.number? {f : NumberForm} {cs : List Char} (h : NoDigit f.radix cs) :
    number? f cs = none := by
  simp [Address.number?, h.takeWhile_eq]

/-- **A written number** is read back, and the reading stops behind it. -/
theorem number?_toDigits {f : NumberForm} {n : Nat} (hf : f.Fits n) {rest : List Char}
    (hr : NoDigit f.radix rest) :
    number? f (Nat.toDigits f.radix n ++ rest) = some (n, rest) := by
  have hds : ((Nat.toDigits f.radix n ++ rest).takeWhile fun c => (digit? f.radix c).isSome) =
      Nat.toDigits f.radix n := by
    rw [List.takeWhile_append_of_pos (digit?_of_mem_toDigits hf.one_lt hf.le_sixteen n),
      hr.takeWhile_eq, List.append_nil]
  have hzero : ¬((Nat.toDigits f.radix n).head? = some '0' ∧
      1 < (Nat.toDigits f.radix n).length) := by
    rintro ⟨hh, hl⟩
    rcases Nat.eq_zero_or_pos n with rfl | hn
    · rw [Nat.toDigits_of_lt_base (by have := hf.one_lt; omega)] at hl
      exact absurd hl (by decide)
    · exact head?_toDigits hf.one_lt hf.le_sixteen n hn hh
  have hlen : ¬(f.maxDigits.any (· < (Nat.toDigits f.radix n).length)) := by
    rw [Option.any_eq_true_iff_get]
    rintro ⟨hs, hlt⟩
    have := hf.length_le _ (Option.get_mem hs)
    simp only [decide_eq_true_eq] at hlt
    omega
  have hempty : (Nat.toDigits f.radix n).isEmpty = false := by
    simp [Nat.toDigits_ne_nil]
  have hlim : ¬ f.limit < n := by have := hf.le_limit; omega
  simp only [number?, hds, ofDigits_toDigits hf.one_lt hf.le_sixteen]
  rw [if_neg, List.drop_left]
  simp only [hempty, hlen, hlim, Bool.or_eq_true, Bool.and_eq_true, decide_eq_true_eq,
    beq_iff_eq, Bool.false_eq_true, false_or]
  exact fun h => hzero ⟨h.1.2, h.2⟩

/-! ### Dotted addresses -/

theorem v4?_eq_none {cs : List Char} (h : number? octetForm cs = none) : v4? cs = none := by
  rw [v4?, h]
  rfl

/-- What is read as a dotted address has a point in it. -/
theorem v4?_of_not_mem {cs : List Char} (h : '.' ∉ cs) : v4? cs = none := by
  rcases hn : number? octetForm cs with - | ⟨v, rest⟩
  · exact v4?_eq_none hn
  · obtain ⟨front, rfl, -⟩ := leaves_number? rfl hn
    have hskip : skip? '.' rest = none := by
      match rest, h with
      | [], _ => rfl
      | c :: cs, h =>
        rw [skip?, if_neg]
        rintro rfl
        simp at h
    rw [v4?, hn]
    simp [hskip]

/-- **A dotted address** is read back, and the reading stops behind it. -/
theorem v4?_v4Text (a b c d : UInt8) {rest : List Char} (hr : NoDigit 10 rest) :
    v4? (v4Text a b c d ++ rest) = some ((a, b, c, d), rest) := by
  have octet (x : UInt8) {rest : List Char} (hr : NoDigit 10 rest) :
      number? octetForm (decimal x.toNat ++ rest) = some (x.toNat, rest) :=
    number?_toDigits (octetForm_fits x) hr
  have point (cs : List Char) : NoDigit 10 ('.' :: cs) := rfl
  have skip (cs : List Char) : skip? '.' ('.' :: cs) = some cs := rfl
  simp only [v4?, v4Text, List.append_assoc, List.cons_append, octet _ (point _), octet d hr, skip,
    Option.bind_eq_bind, Option.bind_some, Option.pure_def, UInt8.ofNat_toNat, Nat.toUInt8_eq]

theorem v4?_v4Text_nil (a b c d : UInt8) : v4? (v4Text a b c d) = some ((a, b, c, d), []) := by
  have hnil : NoDigit 10 [] := rfl
  have hv := v4?_v4Text a b c d hnil
  rwa [List.append_nil] at hv

/-! ### Groups -/

theorem group_bytes (g : UInt16) : group (bytes g).1 (bytes g).2 = g := by
  have hg := g.toNat_lt
  have hhi : (g >>> 8).toNat = g.toNat / 256 := by
    rw [UInt16.toNat_shiftRight, Nat.shiftRight_eq_div_pow]
    rfl
  apply UInt16.toNat_inj.1
  simp only [group, bytes, UInt16.toNat_add, UInt16.toNat_mul, UInt8.toNat_toUInt16,
    UInt16.toNat_toUInt8, UInt16.reduceToNat, hhi]
  omega

/-- Groups, each behind a colon. -/
def colonText (gs : List UInt16) : List Char := gs.flatMap fun g => ':' :: hexadecimal g.toNat

theorem groupsText_cons (g : UInt16) (gs : List UInt16) :
    groupsText (g :: gs) = hexadecimal g.toNat ++ colonText gs := by
  induction gs generalizing g with
  | nil => simp [groupsText, colonText, List.intercalate]
  | cons g' gs ih =>
    have h := ih g'
    rw [groupsText, List.map_cons] at h
    rw [groupsText, List.map_cons, List.map_cons, List.intercalate_cons_cons, h]
    simp [colonText]

/-- What may follow the groups on one side of an address: nothing, or `::`. -/
def Ends (rest : List Char) : Prop := rest = [] ∨ ∃ t, rest = ':' :: ':' :: t

theorem noDigit_colonText {rest : List Char} (hr : Ends rest) (gs : List UInt16) :
    NoDigit 16 (colonText gs ++ rest) := by
  match gs, hr with
  | [], .inl hr => rw [hr]; rfl
  | [], .inr ⟨t, hr⟩ => rw [hr]; rfl
  | g :: gs, _ => rfl

/-- The text of a group, with the one in front or behind its colon. -/
theorem groups_step {n : Nat} {first : Bool} {cs rest : List Char} {g : UInt16}
    (hcs : (if first then some cs else skip? ':' cs) = some (hexadecimal g.toNat ++ rest))
    (hv : v4? (hexadecimal g.toNat ++ rest) = none) (hr : NoDigit 16 rest) :
    groups (n + 1) first cs =
      (g :: (groups n false rest).1, (groups n false rest).2.1, (groups n false rest).2.2) := by
  have hnum : number? groupForm (hexadecimal g.toNat ++ rest) = some (g.toNat, rest) :=
    number?_toDigits (groupForm_fits g) hr
  rw [groups, hcs]
  simp only [hv, ite_self, hnum, Nat.toUInt16_eq, UInt16.ofNat_toNat]

/-- Where no group begins, no group is read. -/
theorem groups_stop {first : Bool} {cs : List Char}
    (h : ∀ rest, (if first then some cs else skip? ':' cs) = some rest → NoDigit 16 rest)
    (limit : Nat) : groups limit first cs = ([], false, cs) := by
  match limit with
  | 0 => rfl
  | n + 1 =>
    rw [groups]
    split
    next => rfl
    next rest hrest =>
      have hd := h rest hrest
      have hv : v4? rest = none := v4?_eq_none (NoDigit.number? (hd.mono (by decide)))
      have hnum : number? groupForm rest = none := NoDigit.number? hd
      simp only [hv, hnum, ite_self]

/-- A row of groups is read back, each behind its colon, and the reading stops behind the last. -/
theorem groups_colonText {gs : List UInt16} {rest : List Char} (hr : Ends rest)
    (hp : '.' ∉ colonText gs ++ rest) {limit : Nat} (hl : gs.length ≤ limit) :
    groups limit false (colonText gs ++ rest) = (gs, false, rest) := by
  induction gs generalizing limit with
  | nil =>
    refine groups_stop (fun cs hcs => ?_) limit
    rcases hr with rfl | ⟨t, rfl⟩
    · cases hcs
    · cases hcs
      rfl
  | cons g gs ih =>
    obtain ⟨n, rfl⟩ : ∃ n, limit = n + 1 := ⟨limit - 1, by simp at hl; omega⟩
    have htext : colonText (g :: gs) ++ rest =
        ':' :: (hexadecimal g.toNat ++ (colonText gs ++ rest)) := by
      simp [colonText]
    rw [htext, List.mem_cons, not_or] at hp
    rw [htext, groups_step (g := g) rfl (v4?_of_not_mem hp.2) (noDigit_colonText hr gs),
      ih (fun h => hp.2 (List.mem_append_right _ h)) (by simpa using hl)]

/-- **The groups on one side** of an address are read back. -/
theorem groups_groupsText {gs : List UInt16} {rest : List Char} (hr : Ends rest)
    (hp : '.' ∉ groupsText gs ++ rest) {limit : Nat} (hl : gs.length ≤ limit) :
    groups limit true (groupsText gs ++ rest) = (gs, false, rest) := by
  match gs with
  | [] =>
    refine groups_stop (fun cs hcs => ?_) limit
    cases hcs
    exact noDigit_colonText hr []
  | g :: gs =>
    obtain ⟨n, rfl⟩ : ∃ n, limit = n + 1 := ⟨limit - 1, by simp at hl; omega⟩
    rw [groupsText_cons, List.append_assoc] at hp ⊢
    rw [groups_step (g := g) rfl (v4?_of_not_mem hp) (noDigit_colonText hr gs),
      groups_colonText hr (fun h => hp (List.mem_append_right _ h)) (by simpa using hl)]

theorem not_mem_hexadecimal (n : Nat) : '.' ∉ hexadecimal n := fun h =>
  absurd (digit?_of_mem_toDigits (by decide) (by decide) n '.' h) (by decide)

theorem not_mem_groupsText (gs : List UInt16) : '.' ∉ groupsText gs := by
  match gs with
  | [] => simp [groupsText, List.intercalate]
  | g :: gs => simp [groupsText_cons, colonText, not_mem_hexadecimal]

/-! ### Addresses of version 6 -/

/-- The run that is left out holds zeros only. -/
theorem longestZeros_spec (start : Nat) (gs : List UInt16) : ∃ front back,
    gs = front ++ List.replicate (longestZeros start gs).2 0 ++ back ∧
      (longestZeros start gs).1 = start + front.length := by
  induction gs generalizing start with
  | nil => exact ⟨[], [], rfl, rfl⟩
  | cons g gs ih =>
    rw [longestZeros]
    split
    next =>
      have hzeros : (g :: gs).takeWhile (· == 0) = List.replicate (zeros (g :: gs)) 0 :=
        List.eq_replicate_iff.2
          ⟨rfl, fun b hb => eq_of_beq (List.all_eq_true.1 List.all_takeWhile b hb)⟩
      refine ⟨[], (g :: gs).dropWhile (· == 0), ?_, rfl⟩
      rw [← hzeros, List.nil_append, List.takeWhile_append_dropWhile]
    next =>
      obtain ⟨front, back, hgs, hstart⟩ := ih (start + 1)
      refine ⟨g :: front, back, by rw [List.cons_append, List.cons_append, ← hgs], ?_⟩
      rw [hstart, List.length_cons]
      omega

/-- Groups on both sides of `::` are read, with zeros in place of the missing ones. -/
theorem v6?_of_groups {cs rest : List Char} {front back : List UInt16} {dotted : Bool} {n : Nat}
    (hn : 1 < n) (hhead : groups 8 true cs = (front, false, ':' :: ':' :: rest))
    (hback : groups (7 - front.length) true rest = (back, dotted, []))
    (h : (front ++ List.replicate n 0 ++ back).length = 8) :
    v6? cs = some (.v6 _ h, []) := by
  have hlen := h
  simp only [List.length_append, List.length_replicate] at hlen
  have hmissing : 8 - front.length - back.length = n := by omega
  have hskip (ds : List Char) : skip? ':' (':' :: ds) = some ds := rfl
  simp only [v6?, hhead, hskip, Option.bind_eq_bind, Option.bind_some, hback, hmissing]
  rw [dif_neg (by omega), if_neg (by decide), dif_pos h]
  rfl

/-- Two groups that are written as a dotted address. -/
theorem groups_v4Text (n : Nat) (a b c d : UInt8) :
    groups (n + 2) false (':' :: v4Text a b c d) = ([group a b, group c d], true, []) := by
  rw [groups]
  simp [skip?, v4?_v4Text_nil]

theorem hexadecimal_ffff : hexadecimal (0xffff : UInt16).toNat = "ffff".toList := by decide

/-- The groups of an address that embeds one of version 4. -/
theorem groups_mapped (a b c d : UInt8) :
    groups 7 true ("ffff:".toList ++ v4Text a b c d) =
      ([0xffff, group a b, group c d], true, []) := by
  have hcolon : NoDigit 16 (':' :: v4Text a b c d) := rfl
  have hv : v4? (hexadecimal (0xffff : UInt16).toNat ++ ':' :: v4Text a b c d) = none :=
    v4?_eq_none (NoDigit.number? (by rw [hexadecimal_ffff]; rfl))
  have hstep : groups (6 + 1) true _ = _ := groups_step (if_pos rfl) hv hcolon
  rwa [groups_v4Text, hexadecimal_ffff] at hstep

theorem v6?_groupsText {gs : List UInt16} (h : gs.length = 8) :
    v6? (groupsText gs) = some (.v6 gs h, []) := by
  have hall := groups_groupsText (.inl rfl) (by simpa using not_mem_groupsText gs) (Nat.le_of_eq h)
  rw [List.append_nil] at hall
  simp only [v6?, hall]
  rw [dif_pos h]
  rfl

theorem v6?_compressed {front back : List UInt16} {n : Nat} (hn : 1 < n)
    (h : (front ++ List.replicate n 0 ++ back).length = 8) :
    v6? (groupsText front ++ ':' :: ':' :: groupsText back) = some (.v6 _ h, []) := by
  have hlen := h
  simp only [List.length_append, List.length_replicate] at hlen
  have hhead : groups 8 true (groupsText front ++ ':' :: ':' :: groupsText back) =
      (front, false, ':' :: ':' :: groupsText back) :=
    groups_groupsText (.inr ⟨_, rfl⟩) (by simp [not_mem_groupsText]) (by omega)
  have hback : groups (7 - front.length) true (groupsText back ++ []) = (back, false, []) :=
    groups_groupsText (.inl rfl) (by simp [not_mem_groupsText]) (by omega)
  rw [List.append_nil] at hback
  exact v6?_of_groups hn hhead hback h

/-- **An address of version 6** is read back in each of its three forms. -/
theorem v6?_v6Text (gs : List UInt16) (h : gs.length = 8) :
    v6? (v6Text gs) = some (.v6 gs h, []) := by
  rw [v6Text]
  split
  next x y hprefix hrest =>
    -- the points stand behind `::`, where the row in front has ended already
    have hhead (rest : List Char) : groups 8 true (':' :: rest) = ([], false, ':' :: rest) :=
      groups_stop (fun cs hcs => by cases hcs; rfl) 8
    have hback := groups_mapped (bytes x).1 (bytes x).2 (bytes y).1 (bytes y).2
    rw [group_bytes, group_bytes] at hback
    obtain rfl : gs = [0, 0, 0, 0, 0, 0xffff, x, y] := by
      rw [← List.take_append_drop 6 gs, hrest, eq_of_beq hprefix]
      rfl
    exact v6?_of_groups (n := 5) (by decide) (hhead _) hback h
  next =>
    obtain ⟨front, back, hgs, hstart⟩ := longestZeros_spec 0 gs
    rcases hrun : longestZeros 0 gs with ⟨start, n⟩
    rw [hrun] at hgs hstart
    simp only [Nat.zero_add] at hgs hstart ⊢
    split
    next hn =>
      have htake : gs.take start = front := by
        rw [hgs, List.append_assoc, hstart, List.take_left]
      have hdrop : gs.drop (start + n) = back := by
        rw [hgs, List.drop_left' (by simp [hstart])]
      rw [htake, hdrop]
      subst hgs
      exact v6?_compressed hn h
    next => exact v6?_groupsText h

theorem v4?_v6Text (gs : List UInt16) : v4? (v6Text gs) = none := by
  rw [v6Text]
  split
  next => exact v4?_eq_none (NoDigit.number? rfl)
  next =>
    refine v4?_of_not_mem ?_
    simp only
    split
    · simp [not_mem_groupsText]
    · exact not_mem_groupsText gs

/-! ### The canonical text -/

/-- **The text of an address** reads back as that address. -/
theorem parse?_render (a : Address) : parse? a.render = some a := by
  match a with
  | .v4 a b c d => simp only [render, parse?, front?, v4?_v4Text_nil]
  | .v6 gs h => simp only [render, parse?, front?, v4?_v6Text, v6?_v6Text gs h]

theorem text_injective {a b : Address} (h : a.text = b.text) : a = b := by
  have hr : a.render = b.render := String.ofList_injective h
  have hp := congrArg parse? hr
  rw [parse?_render, parse?_render] at hp
  exact Option.some.inj hp

end EdgeGateway.Address

import Mathlib.Tactic.IntervalCases
import EdgeGateway.Proofs.Json.Literal

/-! # Compact texts are read back

A value is *writable* if its texts and keys are Unicode, its numbers are integers as they are
written, and no part of it is broken. The compact text of a writable value is read back as that
value, with nothing behind it (`read_compress`). The proof goes by way of the value's *spelling*,
the tokens it is made of: the text is cut into its spelling (`tokens_render`), and the reader makes
the value out of the spelling, whatever brackets are open around it (`foldl_spelling`). -/

namespace EdgeGateway.Json

open EdgeGateway.Text (Symbol symbols symbols_encode)

namespace Tree

mutual

/-- The value has a text of its own. -/
def IsWritable : Tree → Prop
  | .null => True
  | .bool _ => True
  | .number n => ∃ i, n = .ofInt i
  | .text s => s.isSome
  | .array items => AreWritable items
  | .object members => MembersWritable members
  | .broken => False

def AreWritable : List Tree → Prop
  | [] => True
  | t :: ts => t.IsWritable ∧ AreWritable ts

def MembersWritable : List (Option String × Tree) → Prop
  | [] => True
  | (k, t) :: ms => k.isSome ∧ t.IsWritable ∧ MembersWritable ms

end

mutual

/-- The tokens that a value is written with. -/
def spelling : Tree → List Token
  | .null => [.null]
  | .bool b => [.bool b]
  | .number n => [.number n]
  | .text s => [.text s]
  | .array items => .arrayStart :: (itemSpelling items ++ [.arrayEnd])
  | .object members => .objectStart :: (memberSpelling members ++ [.objectEnd])
  | .broken => [.junk]

def itemSpelling : List Tree → List Token
  | [] => []
  | [t] => t.spelling
  | t :: ts => t.spelling ++ .comma :: itemSpelling ts

def memberSpelling : List (Option String × Tree) → List Token
  | [] => []
  | [(k, t)] => .text k :: .colon :: t.spelling
  | (k, t) :: ms => .text k :: .colon :: (t.spelling ++ .comma :: memberSpelling ms)

end

end Tree

/-! ### From the text to its tokens -/

namespace Token

theorem tokens_of_starting? {c : Char} {rest rest' : List Symbol} {t : Token}
    (hb : isBlank (.char c) = false) (h : starting? c rest = some (t, rest')) :
    tokens (.char c :: rest) = t :: tokens rest' := by
  rw [tokens]
  simp only [hb, Bool.false_eq_true, if_false]
  split
  next hn => rw [hn] at h; cases h
  next hs =>
    rw [hs, Option.some.injEq, Prod.mk.injEq] at h
    rw [h.1, h.2]

theorem tokens_quote (s : String) (rest : List Symbol) :
    tokens (written (quote s) ++ rest) = .text (some s) :: tokens rest := by
  obtain ⟨ps, hps, hj⟩ := literal?_quote s.toList rest
  unfold quote
  rw [List.cons_append, written_cons, written_append, List.cons_append, List.append_assoc]
  refine tokens_of_starting? rfl ?_
  show Option.map _ (literal? _) = _
  rw [show written ['"'] ++ rest = .char '"' :: rest from rfl, hps, Option.map_some]
  simp only [hj, Option.map_some, String.ofList_toList]

theorem starting?_digitChar (s : List Symbol) : ∀ d < 10, starting? (Nat.digitChar d) s =
    (unsigned? false (.char (Nat.digitChar d) :: s)).map fun (n, r) => (.number n, r) := by
  intro d hd
  interval_cases d <;> rfl

theorem isBlank_digitChar : ∀ d < 10, isBlank (.char (Nat.digitChar d)) = false := by decide

theorem tokens_render_ofInt (i : Int) {rest : List Symbol} (hr : Closes rest) :
    tokens (written (Number.ofInt i).render ++ rest) = .number (.ofInt i) :: tokens rest := by
  have hu := fun negative => unsigned?_decimal negative i.natAbs hr
  have hw : (Number.ofInt i).render =
      (if decide (i < 0) then ['-'] else []) ++
        (Number.decimal i.natAbs).map Nat.digitChar := by
    rw [Number.ofInt_eq, Number.render]
    simp
  rw [hw, Number.ofInt_eq]
  by_cases hi : i < 0
  · simp only [hi, decide_true, if_true, List.cons_append, List.nil_append, written_cons]
    refine tokens_of_starting? rfl ?_
    show (unsigned? true _).map _ = _
    rw [hu true]
    rfl
  · simp only [hi, decide_false, Bool.false_eq_true, if_false, List.nil_append]
    obtain ⟨d, ds, hds⟩ := List.exists_cons_of_ne_nil (Number.decimal_ne_nil i.natAbs)
    have hd : d < 10 := Number.decimal_lt i.natAbs d (by rw [hds]; simp)
    have hf := hu false
    rw [hds, List.map_cons, written_cons, List.cons_append] at hf ⊢
    refine tokens_of_starting? (isBlank_digitChar d hd) ?_
    rw [starting?_digitChar _ d hd, hf]
    rfl

theorem tokens_punctuation {c : Char} {t : Token} (hb : isBlank (.char c) = false)
    (h : ∀ rest, starting? c rest = some (t, rest)) (rest : List Symbol) :
    tokens (.char c :: rest) = t :: tokens rest :=
  tokens_of_starting? hb (h rest)

end Token

namespace Tree

open Token

theorem closes_comma (rest : List Symbol) : Closes (.char ',' :: rest) := Or.inl rfl

theorem closes_bracket (rest : List Symbol) : Closes (.char ']' :: rest) := Or.inr (Or.inl rfl)

theorem closes_brace (rest : List Symbol) : Closes (.char '\x7d' :: rest) := Or.inr (Or.inr rfl)

theorem tokens_comma (rest : List Symbol) : tokens (.char ',' :: rest) = .comma :: tokens rest :=
  tokens_punctuation rfl (fun _ => rfl) rest

mutual

/-- **The text of a value is cut into its spelling.** -/
theorem tokens_render : ∀ (t : Tree), t.IsWritable → ∀ {rest : List Symbol}, Closes rest →
    tokens (written t.render ++ rest) = t.spelling ++ tokens rest
  | .null, _, rest, _ => tokens_of_starting? rfl rfl
  | .bool true, _, rest, _ => tokens_of_starting? rfl rfl
  | .bool false, _, rest, _ => tokens_of_starting? rfl rfl
  | .number n, h, rest, hr => by
    obtain ⟨i, rfl⟩ := h
    exact tokens_render_ofInt i hr
  | .text s, h, rest, _ => by
    obtain ⟨s, rfl⟩ := Option.isSome_iff_exists.mp h
    exact tokens_quote s rest
  | .array items, h, rest, _ => by
    have hi := tokens_renderItems items h (closes_bracket rest)
    rw [tokens_punctuation (t := .arrayEnd) rfl (fun _ => rfl)] at hi
    simp only [render, spelling, written_cons, written_append, written_nil, List.cons_append,
      List.append_assoc, List.nil_append]
    rw [tokens_punctuation (t := .arrayStart) rfl (fun _ => rfl), hi]
  | .object members, h, rest, _ => by
    have hm := tokens_renderMembers members h (closes_brace rest)
    rw [tokens_punctuation (t := .objectEnd) rfl (fun _ => rfl)] at hm
    simp only [render, spelling, written_cons, written_append, written_nil, List.cons_append,
      List.append_assoc, List.nil_append]
    rw [tokens_punctuation (t := .objectStart) rfl (fun _ => rfl), hm]
  | .broken, h, _, _ => h.elim

theorem tokens_renderItems : ∀ (items : List Tree), AreWritable items →
    ∀ {rest : List Symbol}, Closes rest →
      tokens (written (renderItems items) ++ rest) = itemSpelling items ++ tokens rest
  | [], _, _, _ => rfl
  | [t], h, rest, hr => tokens_render t h.1 hr
  | t :: u :: ts, h, rest, hr => by
    have ht := tokens_render t h.1 (closes_comma (written (renderItems (u :: ts)) ++ rest))
    have hts := tokens_renderItems (u :: ts) h.2 hr
    rw [tokens_comma, hts] at ht
    simp only [renderItems, itemSpelling, written_append, written_cons, List.append_assoc,
      List.cons_append] at ht ⊢
    exact ht

theorem tokens_renderMembers : ∀ (members : List (Option String × Tree)),
    MembersWritable members → ∀ {rest : List Symbol}, Closes rest →
      tokens (written (renderMembers members) ++ rest) = memberSpelling members ++ tokens rest
  | [], _, _, _ => rfl
  | [(k, t)], h, rest, hr => by
    obtain ⟨k, rfl⟩ := Option.isSome_iff_exists.mp h.1
    have ht := tokens_render t h.2.1 hr
    simp only [renderMembers, memberSpelling, written_append, written_cons, List.append_assoc,
      List.cons_append, Option.getD_some]
    rw [tokens_quote, tokens_punctuation (t := .colon) rfl (fun _ => rfl), ht]
  | (k, t) :: m :: ms, h, rest, hr => by
    obtain ⟨k, rfl⟩ := Option.isSome_iff_exists.mp h.1
    have ht := tokens_render t h.2.1 (closes_comma (written (renderMembers (m :: ms)) ++ rest))
    have hms := tokens_renderMembers (m :: ms) h.2.2 hr
    rw [tokens_comma, hms] at ht
    simp only [renderMembers, memberSpelling, written_append, written_cons, List.append_assoc,
      List.cons_append, Option.getD_some] at ht ⊢
    rw [tokens_quote, tokens_punctuation (t := .colon) rfl (fun _ => rfl), ht]

end

/-! ### From the tokens to the value -/

open Reader

theorem step_firstItem {tok : Token} (h : tok ≠ .arrayEnd) (stack : List Frame) :
    step (.reading stack .firstItem) tok = step (.reading stack .value) tok := by
  match stack, tok, h with
  | [], _, _ => rfl
  | .array _ :: _, .arrayEnd, h => exact absurd rfl h
  | .array _ :: _, .null, _ => rfl
  | .array _ :: _, .bool _, _ => rfl
  | .array _ :: _, .number _, _ => rfl
  | .array _ :: _, .text _, _ => rfl
  | .array _ :: _, .arrayStart, _ => rfl
  | .array _ :: _, .objectStart, _ => rfl
  | .array _ :: _, .objectEnd, _ => rfl
  | .array _ :: _, .comma, _ => rfl
  | .array _ :: _, .colon, _ => rfl
  | .array _ :: _, .junk, _ => rfl
  | .object _ :: _, _, _ => rfl
  | .member _ _ :: _, _, _ => rfl

/-- The spelling of a value begins with no closing bracket. -/
theorem exists_spelling_cons (t : Tree) : ∃ tok ts, t.spelling = tok :: ts ∧ tok ≠ .arrayEnd := by
  cases t <;> exact ⟨_, _, rfl, by simp⟩

theorem foldl_firstItem (t : Tree) (ts : List Tree) (stack : List Frame) :
    (itemSpelling (t :: ts)).foldl step (.reading stack .firstItem) =
      (itemSpelling (t :: ts)).foldl step (.reading stack .value) := by
  obtain ⟨tok, more, hs, hne⟩ := exists_spelling_cons t
  have hi : ∃ more', itemSpelling (t :: ts) = tok :: more' := by
    cases ts with
    | nil => exact ⟨more, hs⟩
    | cons u ts =>
      refine ⟨more ++ .comma :: itemSpelling (u :: ts), ?_⟩
      rw [itemSpelling, hs, List.cons_append]
      simp
  obtain ⟨more', hi⟩ := hi
  rw [hi, List.foldl_cons, List.foldl_cons, step_firstItem hne]

theorem foldl_firstKey (m : Option String × Tree) (ms before : List (Option String × Tree))
    (stack : List Frame) :
    (memberSpelling (m :: ms)).foldl step (.reading (.object before :: stack) .firstKey) =
      (memberSpelling (m :: ms)).foldl step (.reading (.object before :: stack) .key) := by
  cases ms <;> rfl

mutual

/-- **The reader makes a value out of its spelling** and hands it to the bracket around it. -/
theorem foldl_spelling : ∀ (t : Tree), t.IsWritable → ∀ (stack : List Frame),
    t.spelling.foldl step (.reading stack .value) = deliver t stack
  | .null, _, _ => rfl
  | .bool _, _, _ => rfl
  | .number _, _, _ => rfl
  | .text _, _, _ => rfl
  | .array [], _, _ => rfl
  | .array (t :: ts), h, stack => by
    have hi := foldl_itemSpelling (t :: ts) h [] stack (by simp)
    rw [spelling, List.foldl_cons, List.foldl_append]
    show List.foldl step (List.foldl step (.reading (.array [] :: stack) .firstItem) _) _ = _
    rw [foldl_firstItem, hi]
    show deliver (.array ((t :: ts).reverse ++ []).reverse) stack = _
    rw [List.append_nil, List.reverse_reverse]
  | .object [], _, _ => rfl
  | .object (m :: ms), h, stack => by
    have hm := foldl_memberSpelling (m :: ms) h [] stack (by simp)
    rw [spelling, List.foldl_cons, List.foldl_append]
    show List.foldl step (List.foldl step (.reading (.object [] :: stack) .firstKey) _) _ = _
    rw [foldl_firstKey, hm]
    show deliver (.object ((m :: ms).reverse ++ []).reverse) stack = _
    rw [List.append_nil, List.reverse_reverse]
  | .broken, h, _ => h.elim

/-- The items of an array, read after those that stand before them. -/
theorem foldl_itemSpelling : ∀ (items : List Tree), AreWritable items → ∀ (before : List Tree)
    (stack : List Frame), items ≠ [] →
      (itemSpelling items).foldl step (.reading (.array before :: stack) .value) =
        .reading (.array (items.reverse ++ before) :: stack) .afterValue
  | [], _, _, _, h => absurd rfl h
  | [t], h, before, stack, _ => foldl_spelling t h.1 (.array before :: stack)
  | t :: u :: ts, h, before, stack, _ => by
    have ht := foldl_spelling t h.1 (.array before :: stack)
    have hts := foldl_itemSpelling (u :: ts) h.2 (t :: before) stack (by simp)
    rw [itemSpelling, List.foldl_append, ht, List.foldl_cons]
    · show List.foldl step (.reading (.array (t :: before) :: stack) .value) _ = _
      rw [hts]
      simp
    · simp

/-- The members of an object, read after those that stand before them. -/
theorem foldl_memberSpelling : ∀ (members : List (Option String × Tree)),
    MembersWritable members → ∀ (before : List (Option String × Tree)) (stack : List Frame),
      members ≠ [] →
      (memberSpelling members).foldl step (.reading (.object before :: stack) .key) =
        .reading (.object (members.reverse ++ before) :: stack) .afterValue
  | [], _, _, _, h => absurd rfl h
  | [(k, t)], h, before, stack, _ => foldl_spelling t h.2.1 (.member before k :: stack)
  | (k, t) :: m :: ms, h, before, stack, _ => by
    have ht := foldl_spelling t h.2.1 (.member before k :: stack)
    have hms := foldl_memberSpelling (m :: ms) h.2.2 ((k, t) :: before) stack (by simp)
    rw [memberSpelling, List.foldl_cons, List.foldl_cons, List.foldl_append]
    · show List.foldl step (List.foldl step (.reading (.member before k :: stack) .value) _) _ = _
      rw [ht, List.foldl_cons]
      show List.foldl step (.reading (.object ((k, t) :: before) :: stack) .key) _ = _
      rw [hms]
      simp
    · simp

end

end Tree

/-- **The compact text of a writable value is read back as that value**, with nothing behind it. -/
theorem Document.read_compress {t : Tree} (h : t.IsWritable) :
    Document.read t.compress.toUTF8 = ⟨t, false⟩ := by
  have ht := @Tree.tokens_render t h [] trivial
  have hn : tokens [] = [] := by rw [tokens]
  rw [List.append_nil, hn, List.append_nil] at ht
  unfold Document.read
  rw [symbols_encode, Tree.compress, String.toList_ofList]
  show Document.ofTokens (tokens (written t.render)) = _
  rw [ht, Document.ofTokens, Tree.foldl_spelling t h]
  rfl

end EdgeGateway.Json

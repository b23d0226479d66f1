import Mathlib.Tactic.SplitIfs
import EdgeGateway.Lease.Store

/-! # Who holds a key

What matters of a key store at an instant is the live entry of each key (`holder?`). Taking a key
succeeds where there is none and then there is the new one; freeing a key succeeds where the entry
is the token's and then there is none; otherwise every key has the holder that it had. Later on an
entry is gone or is the same one. -/

namespace EdgeGateway.Lease.Store

/-- The live entry of a key. -/
def holder? (s : Store) (now : Nat) (key : String) : Option Entry :=
  (s.entries.get? key).filter fun e => Entry.live e now

variable {s : Store} {now : Nat} {key token : String}

theorem holder?_eq_some_iff {e : Entry} :
    s.holder? now key = some e ↔ s.entries.get? key = some e ∧ now < e.expires := by
  unfold holder?
  rw [Option.filter_eq_some_iff]
  unfold Entry.live
  rw [decide_eq_true_eq]

/-- Time only ends entries. -/
theorem holder?_later {later : Nat} (h : now ≤ later) {e : Entry} :
    s.holder? later key = some e ↔ s.holder? now key = some e ∧ later < e.expires := by
  rw [holder?_eq_some_iff, holder?_eq_some_iff]
  constructor
  · rintro ⟨hg, hl⟩
    exact ⟨⟨hg, by omega⟩, hl⟩
  · rintro ⟨⟨hg, -⟩, hl⟩
    exact ⟨hg, hl⟩

/-- **A key is taken** where it has no holder, and then the token holds it; otherwise nothing
changes. -/
theorem setIfAbsent_cases (s : Store) (now : Nat) (key token : String) (ttl : Duration) :
    ((s.setIfAbsent now key token ttl).1 = false ∧ (s.setIfAbsent now key token ttl).2 = s ∧
      s.holder? now key ≠ none) ∨
    ((s.setIfAbsent now key token ttl).1 = true ∧ s.holder? now key = none ∧
      (s.setIfAbsent now key token ttl).2.entries =
        s.entries.insert key ⟨token, now + ttl.nanos⟩) := by
  unfold setIfAbsent holder?
  match hg : s.entries.get? key with
  | none => exact Or.inr ⟨rfl, rfl, rfl⟩
  | some e =>
    by_cases hl : Entry.live e now = true
    · left
      simp [hl]
    · right
      simp [hl]

/-- **A key is freed** where the token holds it; an entry that is not live may go without that. -/
theorem deleteIfOwner_cases (s : Store) (now : Nat) (key token : String) :
    ((s.deleteIfOwner now key token).1 = true ∧
      (∃ e, s.holder? now key = some e ∧ e.token = token) ∧
      (s.deleteIfOwner now key token).2.entries = s.entries.erase key) ∨
    ((s.deleteIfOwner now key token).1 = false ∧
      (∀ e, s.holder? now key = some e → e.token ≠ token) ∧
      ((s.deleteIfOwner now key token).2 = s ∨
        s.holder? now key = none ∧
        (s.deleteIfOwner now key token).2.entries = s.entries.erase key)) := by
  unfold deleteIfOwner holder?
  match hg : s.entries.get? key with
  | none => exact Or.inr ⟨rfl, by simp, Or.inl rfl⟩
  | some e =>
    by_cases hl : Entry.live e now = true
    · by_cases ht : e.token = token
      · exact Or.inl ⟨by simp [hl, ht], ⟨e, by simp [hl], ht⟩, by simp [hl, ht]⟩
      · right
        simp [hl, ht]
    · right
      simp [hl]

theorem holder?_insert {s' : Store} {e : Entry} {key' : String}
    (h : s'.entries = s.entries.insert key e) : s'.holder? now key' =
      if key' = key then (some e).filter fun e => Entry.live e now else s.holder? now key' := by
  unfold holder?
  rw [h, KeyMap.get?_insert]
  split_ifs <;> rfl

theorem holder?_erase {s' : Store} {key' : String} (h : s'.entries = s.entries.erase key) :
    s'.holder? now key' = if key' = key then none else s.holder? now key' := by
  unfold holder?
  rw [h, KeyMap.get?_erase]
  split_ifs <;> rfl

end EdgeGateway.Lease.Store

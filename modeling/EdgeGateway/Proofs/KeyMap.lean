import Mathlib.Data.List.Induction
import Mathlib.Data.List.Sort
import Mathlib.Tactic.SplitIfs
import EdgeGateway.KeyMap

/-! # Finite maps by their look-ups

A map is determined by its look-ups (`ext_get?`), and what a list of entries with distinct keys
makes is looked up in the list itself (`get?_ofList`), whatever the order of the list. -/

namespace EdgeGateway.KeyMap

universe u

variable {α : Type u}

theorem key_unique {l : List (String × α)} (h : l.Pairwise fun a b => a.1 < b.1) {k : String}
    {v w : α} (hv : (k, v) ∈ l) (hw : (k, w) ∈ l) : v = w := by
  induction l with
  | nil => simp at hv
  | cons e l ih =>
    obtain ⟨he, hl⟩ := List.pairwise_cons.mp h
    rw [List.mem_cons] at hv hw
    rcases hv with rfl | hv
    · rcases hw with hw | hw
      · simpa using hw.symm
      · exact absurd (he (k, w) hw) (String.lt_irrefl k)
    · rcases hw with rfl | hw
      · exact absurd (he (k, v) hv) (String.lt_irrefl k)
      · exact ih hl hv hw

theorem mem_of_lookup {l : List (String × α)} {k : String} {v : α} (h : l.lookup k = some v) :
    (k, v) ∈ l := by
  obtain ⟨l₁, l₂, rfl, -⟩ := List.lookup_eq_some_iff.mp h
  simp

theorem exists_lookup_of_mem {l : List (String × α)} {k : String} {v : α} (h : (k, v) ∈ l) :
    ∃ w, l.lookup k = some w := by
  rw [← Option.isSome_iff_exists, List.lookup_isSome_iff]
  exact ⟨(k, v), h, by simp⟩

theorem get?_eq_some_iff (m : KeyMap α) {k : String} {v : α} :
    m.get? k = some v ↔ (k, v) ∈ m.entries := by
  constructor
  · exact mem_of_lookup
  · intro h
    obtain ⟨w, hw⟩ := exists_lookup_of_mem h
    rw [get?, hw, key_unique m.sorted h (mem_of_lookup hw)]

theorem mem_keys_iff (m : KeyMap α) {k : String} : k ∈ m.keys ↔ ∃ v, m.get? k = some v := by
  rw [keys, List.mem_map]
  constructor
  · rintro ⟨⟨k, v⟩, h, rfl⟩
    exact ⟨v, m.get?_eq_some_iff.2 h⟩
  · rintro ⟨v, h⟩
    exact ⟨(k, v), m.get?_eq_some_iff.1 h, rfl⟩

theorem mem_values_iff (m : KeyMap α) {v : α} : v ∈ m.values ↔ ∃ k, m.get? k = some v := by
  rw [values, List.mem_map]
  constructor
  · rintro ⟨⟨k, v⟩, h, rfl⟩
    exact ⟨k, m.get?_eq_some_iff.2 h⟩
  · rintro ⟨k, h⟩
    exact ⟨(k, v), m.get?_eq_some_iff.1 h, rfl⟩

/-- **A map is determined by its look-ups.** -/
theorem ext_get? {m m' : KeyMap α} (h : ∀ k, m.get? k = m'.get? k) : m = m' := by
  have hmem : ∀ e, e ∈ m.entries ↔ e ∈ m'.entries := by
    rintro ⟨k, v⟩
    rw [← get?_eq_some_iff, ← get?_eq_some_iff, h k]
  have hirr : Std.Irrefl fun a b : String × α => a.1 < b.1 := ⟨fun a => String.lt_irrefl a.1⟩
  have hasy : Std.Asymm fun a b : String × α => a.1 < b.1 := ⟨fun a b => String.lt_asymm⟩
  have he : m.entries = m'.entries := m.sorted.eq_of_mem_iff m'.sorted (fun e => hmem e)
  cases m; cases m'; cases he; rfl

/-! ### Changing every value -/

section Map

variable {β : Type u} (f : α → β) (m : KeyMap α)

theorem lookup_map (l : List (String × α)) (k : String) :
    (l.map fun e => (e.1, f e.2)).lookup k = (l.lookup k).map f := by
  induction l with
  | nil => rfl
  | cons e l ih =>
    rw [List.map_cons, lookup_cons_eq_ite, lookup_cons_eq_ite, ih]
    split_ifs <;> rfl

theorem get?_map (k : String) : (m.map f).get? k = (m.get? k).map f := lookup_map f m.entries k

theorem contains_map (k : String) : (m.map f).contains k = m.contains k := by
  unfold contains
  rw [get?_map, Option.isSome_map]

theorem map_insert (k : String) (v : α) : (m.map f).insert k (f v) = (m.insert k v).map f := by
  refine ext_get? fun k' => ?_
  rw [get?_insert, get?_map, get?_map, get?_insert]
  split_ifs <;> rfl

theorem map_erase (k : String) : (m.map f).erase k = (m.erase k).map f := by
  refine ext_get? fun k' => ?_
  rw [get?_erase, get?_map, get?_map, get?_erase]
  split_ifs <;> rfl

end Map

/-! ### Maps of lists -/

theorem get?_foldl_insert_of_not_mem {l : List (String × α)} {k : String}
    (h : ∀ v, (k, v) ∉ l) (m : KeyMap α) :
    (l.foldl (fun m e => m.insert e.1 e.2) m).get? k = m.get? k := by
  induction l generalizing m with
  | nil => rfl
  | cons e l ih =>
    have hk : k ≠ e.1 := by
      rintro rfl
      exact h e.2 (by simp)
    rw [List.foldl_cons, ih (fun v hv => h v (by simp [hv])), get?_insert, if_neg hk]

theorem get?_foldl_insert_of_mem {l : List (String × α)} (hl : (l.map Prod.fst).Nodup)
    {k : String} {v : α} (h : (k, v) ∈ l) (m : KeyMap α) :
    (l.foldl (fun m e => m.insert e.1 e.2) m).get? k = some v := by
  induction l generalizing m with
  | nil => simp at h
  | cons e l ih =>
    rw [List.map_cons, List.nodup_cons] at hl
    rw [List.foldl_cons]
    rcases List.mem_cons.mp h with rfl | h
    · have hk : ∀ w, (k, w) ∉ l := fun w hw => hl.1 (List.mem_map.mpr ⟨(k, w), hw, rfl⟩)
      rw [get?_foldl_insert_of_not_mem hk, get?_insert, if_pos rfl]
    · exact ih hl.2 h _

/-- **The map of a list with distinct keys** holds exactly the entries of the list. -/
theorem get?_ofList {l : List (String × α)} (hl : (l.map Prod.fst).Nodup) (k : String) (v : α) :
    (ofList l).get? k = some v ↔ (k, v) ∈ l := by
  constructor
  · intro h
    by_contra hv
    by_cases hk : ∃ w, (k, w) ∈ l
    · obtain ⟨w, hw⟩ := hk
      have he := get?_foldl_insert_of_mem hl hw empty
      rw [ofList, he, Option.some.injEq] at h
      exact hv (h ▸ hw)
    · rw [ofList, get?_foldl_insert_of_not_mem (fun w hw => hk ⟨w, hw⟩)] at h
      simp at h
  · exact fun h => get?_foldl_insert_of_mem hl h empty

/-- Of the entries of a key in a list, the last one counts. -/
theorem get?_ofList_eq_lookup (l : List (String × α)) (k : String) :
    (ofList l).get? k = l.reverse.lookup k := by
  induction l using List.reverseRecOn with
  | nil => rfl
  | append_singleton l e ih =>
    have hl : ofList (l ++ [e]) = (ofList l).insert e.1 e.2 := List.foldl_concat ..
    rw [hl, get?_insert, ih, List.reverse_concat, lookup_cons_eq_ite]

theorem nodup_keys (m : KeyMap α) : (m.entries.map Prod.fst).Nodup := by
  unfold List.Nodup
  rw [List.pairwise_map]
  exact m.sorted.imp fun h => String.ne_of_lt h

/-- A map is the map of its own entries. -/
theorem ofList_entries (m : KeyMap α) : ofList m.entries = m := by
  refine ext_get? fun k => Option.ext fun v => ?_
  rw [get?_ofList m.nodup_keys, get?_eq_some_iff]

/-- The values of a list with distinct keys are kept, each as often as it stands there. -/
theorem values_ofList_perm {l : List (String × α)} (hl : (l.map Prod.fst).Nodup) :
    (ofList l).values.Perm (l.map Prod.snd) := by
  have hentries : (ofList l).entries.Perm l := by
    rw [List.perm_ext_iff_of_nodup (ofList l).nodup_keys.of_map (hl.of_map)]
    rintro ⟨k, v⟩
    rw [← get?_eq_some_iff, get?_ofList hl]
  exact hentries.map Prod.snd

end EdgeGateway.KeyMap

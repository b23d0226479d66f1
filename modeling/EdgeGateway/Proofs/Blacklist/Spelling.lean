import EdgeGateway.Proofs.Blacklist.Canonical

/-! # Spellings of an address

A blacklist keeps an address under its canonical text, and looks it up, adds it and removes it
under that text. Two texts that write one address are therefore one for all it does, and a text
that writes none finds nothing (`listed_by_address`).

A list of addresses is read word by word (`addresses_append_separator`, `addresses_word`), so the
addresses that were read, with commas between them, are read as themselves
(`addresses_intercalate`). -/

namespace EdgeGateway.Blacklist

open Text

/-! ### Lists of addresses -/

theorem isBlank_of_not_isSeparator {c : Char} (h : isSeparator c = false) : isBlank c = false :=
  (Bool.or_eq_false_iff.1 h).2

/-- **A list is read word by word**: what stands before a separator is read by itself. -/
theorem addresses_append_separator {c : Char} (hc : isSeparator c) (front rest : List Char) :
    addresses (front ++ c :: rest) = addresses front ++ addresses rest := by
  unfold addresses
  rw [List.splitOnP_append_cons front rest hc, List.filterMap_append]

/-- A word makes one entry if it is an address, and none otherwise. -/
theorem addresses_word {w : List Char} (h : ∀ c ∈ w, isSeparator c = false) :
    addresses w = ((Address.parse? w).map Address.text).toList := by
  have htrim : trim w = w := trim_of_not_isBlank fun c hc => isBlank_of_not_isSeparator (h c hc)
  unfold addresses
  rw [List.splitOnP_eq_singleton h, List.filterMap_cons, List.filterMap_nil, canonical?, htrim]
  cases Address.parse? w <;> rfl

/-- No character of a canonical text separates two addresses. -/
theorem isSeparator_of_mem_text {a : Address} {c : Char} (h : c ∈ a.text.toList) :
    isSeparator c = false := by
  have hchar := Address.isAddressChar_of_parse? (parse?_text a) c h
  have hblank := Address.isBlank_of_isAddressChar hchar
  have hcomma : c ≠ ',' := by
    rintro rfl
    exact absurd hchar (by decide)
  simp [isSeparator, hblank, hcomma]

theorem addresses_text (a : Address) : addresses a.text.toList = [a.text] := by
  have hword := addresses_word (w := a.text.toList) fun c hc => isSeparator_of_mem_text hc
  rw [hword, parse?_text]
  rfl

/-- Canonical texts with commas between them are read as they are. -/
theorem addresses_intercalate {ips : List String} (h : ∀ ip ∈ ips, IsCanonical ip) :
    addresses (",".intercalate ips).toList = ips := by
  rw [String.toList_intercalate]
  induction ips with
  | nil => rfl
  | cons ip ips ih =>
    obtain ⟨a, rfl⟩ := h ip (by simp)
    have hrest := ih fun ip hip => h ip (by simp [hip])
    cases ips with
    | nil =>
      rw [List.map_singleton, List.intercalate_singleton]
      exact addresses_text a
    | cons ip' ips =>
      rw [List.map_cons, List.map_cons, List.intercalate_cons_cons, ← List.map_cons,
        show ",".toList = [','] from rfl, List.append_assoc, List.singleton_append,
        addresses_append_separator (by decide), addresses_text]
      exact congrArg (a.text :: ·) hrest

/-! ### Keys -/

/-- Both texts write one address, blanks around it aside. -/
def SameAddress (x y : String) : Prop :=
  ∃ a, Address.parse? (trim x.toList) = some a ∧ Address.parse? (trim y.toList) = some a

/-- A text that is no address is no canonical text. -/
theorem not_isCanonical_key {x : String} (h : Address.parse? (trim x.toList) = none) :
    ¬ IsCanonical (key x) := by
  have hkey : key x = x := by simp [key, canonical?, h]
  rw [hkey]
  rintro ⟨a, rfl⟩
  rw [Address.trim_of_parse? (parse?_text a), parse?_text] at h
  cases h

theorem SameAddress.key_eq {x y : String} (h : SameAddress x y) : key x = key y := by
  obtain ⟨a, hx, hy⟩ := h
  rw [key_of_parse? hx, key_of_parse? hy]

/-- The key of a text is the canonical text of an address just if both write that address. -/
theorem key_eq_text_iff {x y : String} {a : Address}
    (hx : Address.parse? (trim x.toList) = some a) : key y = a.text ↔ SameAddress x y := by
  constructor
  · intro hkey
    rcases hy : Address.parse? (trim y.toList) with _ | a'
    · exact absurd ⟨a, hkey⟩ (not_isCanonical_key hy)
    · have htext : a'.text = a.text := (key_of_parse? hy).symm.trans hkey
      have haddr : a' = a := Address.text_injective htext
      exact ⟨a, hx, haddr ▸ hy⟩
  · intro hsame
    rw [← hsame.key_eq, key_of_parse? hx]

/-! ### What is found under a key -/

theorem get?_eq_none_of_not_isCanonical {α : Type} {m : KeyMap α} (h : KeysCanonical m)
    {k : String} (hk : ¬ IsCanonical k) : m.get? k = none := by
  rcases hget : m.get? k with _ | v
  · rfl
  · exact absurd (h k ((KeyMap.mem_keys_iff m).2 ⟨v, hget⟩)) hk

/-- A text that is no address finds nothing. -/
theorem Canonical.finds_nothing {b : Blacklist} (h : b.Canonical) {x : String}
    (hx : Address.parse? (trim x.toList) = none) (at_ : Readings) :
    (b.contains x at_).1 = none ∧ (b.remove x).1 = false := by
  have hkey := not_isCanonical_key hx
  have hdynamic : b.dynamic.get? (key x) = none := get?_eq_none_of_not_isCanonical h.dynamic hkey
  have hfixed : (b.currentFixed at_.refresh).contains (key x) = false := by
    rw [KeyMap.contains, get?_eq_none_of_not_isCanonical (h.currentFixed at_.refresh) hkey]
    rfl
  constructor
  · rw [contains_fst, hfixed, hdynamic]
    rfl
  · rw [remove, KeyMap.contains, hdynamic]
    rfl

/-- Two spellings of an address are one for all that is done to a blacklist. -/
theorem SameAddress.alike {x y : String} (h : SameAddress x y) (b : Blacklist) (at_ : Readings)
    (expiry : UInt64) : b.contains x at_ = b.contains y at_ ∧ b.remove x = b.remove y ∧
      b.add x expiry = b.add y expiry := by
  have hkey := h.key_eq
  obtain ⟨a, hx, hy⟩ := h
  refine ⟨?_, ?_, ?_⟩
  · rw [contains, containsDuring, hkey, contains, containsDuring]
  · rw [remove, hkey, remove]
  · rw [add_of_parse? b hx, add_of_parse? b hy]

/-! ### One entry -/

/-- The static list is empty whenever it is read, and there is no dynamic entry. -/
structure Unlisted (b : Blacklist) (refresh : UInt64) : Prop where
  fixed : b.currentFixed refresh = .empty
  dynamic : b.dynamic = .empty

/-- Of a blacklist with one entry, that entry is found by all spellings of its address, and by no
other text. -/
theorem Unlisted.found_iff {b : Blacklist} {at_ : Readings} (h : b.Unlisted at_.refresh)
    (x y : String) :
    ((b.perform (.add x 0)).contains y at_).1 =
        (if (b.perform (.add x 0)).dynamic.contains (key y) then some .dynamic else none) ∧
      ((b.perform (.add x 0)).dynamic.contains (key y) = true ↔ SameAddress x y) := by
  rcases hx : Address.parse? (trim x.toList) with _ | a
  · have hadd : b.perform (.add x 0) = b := b.perform_add_of_parse?_eq_none hx 0
    have hnone : b.dynamic.contains (key y) = false := by
      rw [h.dynamic]
      rfl
    have hsame : ¬ SameAddress x y := by
      rintro ⟨a, ha, -⟩
      rw [hx] at ha
      cases ha
    rw [hadd, contains_fst, h.fixed, hnone, h.dynamic]
    exact ⟨rfl, by simp [hsame]⟩
  · have hadd : b.perform (.add x 0) = { b with dynamic := KeyMap.empty.insert a.text 0 } := by
      rw [perform, add_of_parse? b hx, h.dynamic]
      rfl
    have hget : (KeyMap.empty.insert a.text (0 : UInt64)).get? (key y) =
        if key y = a.text then some 0 else none := KeyMap.get?_insert ..
    have hfixed : currentFixed { b with dynamic := KeyMap.empty.insert a.text 0 } at_.refresh =
        .empty := h.fixed
    rw [hadd, contains_fst, hfixed]
    simp only [KeyMap.contains, hget, ← key_eq_text_iff hx]
    by_cases hkey : key y = a.text
    · simp [hkey, isExpired, isPermanent]
    · simp [hkey]

/-! ### Addresses and their spellings -/

/-- **Membership goes by the address**, not by its spelling. Whatever was done to a blacklist, the
keys of both lists are canonical texts, spellings of one address are one for it, and a text that is
no address finds nothing. Of a blacklist with a single entry, just the spellings of its address
find it and remove it. And a list of addresses has one entry for each of its words that is an
address, in order, and is read again from these entries with commas between them. -/
theorem listed_by_address (source : Source) (window : Duration) (ops : List Operation)
    (at_ : Readings) :
    let b := (Blacklist.new source window).run ops
    ((∀ ip ∈ b.dynamic.keys, IsCanonical ip) ∧ (∀ ip ∈ b.fixedEntries, IsCanonical ip) ∧
      ∀ ip ∈ (b.currentFixed at_.refresh).keys, IsCanonical ip) ∧
    (∀ x y, SameAddress x y → b.contains x at_ = b.contains y at_ ∧ b.remove x = b.remove y) ∧
    (∀ x, Address.parse? (trim x.toList) = none →
      (b.contains x at_).1 = none ∧ (b.remove x).1 = false) ∧
    (b.Unlisted at_.refresh → ∀ x y,
      (((b.perform (.add x 0)).contains y at_).1 = some .dynamic ↔ SameAddress x y) ∧
      (((b.perform (.add x 0)).contains y at_).1 = none ↔ ¬ SameAddress x y) ∧
      (((b.perform (.add x 0)).remove y).1 = true ↔ SameAddress x y)) ∧
    ∀ t, addresses (",".intercalate (addresses t)).toList = addresses t ∧
      (∀ front c rest, isSeparator c → t = front ++ c :: rest →
        addresses t = addresses front ++ addresses rest) ∧
      ((∀ c ∈ t, isSeparator c = false) →
        addresses t = ((Address.parse? t).map Address.text).toList) := by
  intro b
  have hb : b.Canonical := (Canonical.new source window).run ops
  refine ⟨⟨hb.dynamic, hb.fixed, hb.currentFixed at_.refresh⟩, ?_, ?_, ?_, ?_⟩
  · intro x y h
    have halike := h.alike b at_ 0
    exact ⟨halike.1, halike.2.1⟩
  · intro x hx
    exact hb.finds_nothing hx at_
  · intro h x y
    obtain ⟨hcontains, hiff⟩ := h.found_iff x y
    rw [hcontains, ← hiff]
    refine ⟨?_, ?_, Iff.rfl⟩ <;> split <;> simp [*]
  · intro t
    refine ⟨addresses_intercalate fun ip => isCanonical_of_mem_addresses, ?_, addresses_word⟩
    rintro front c rest hc rfl
    exact addresses_append_separator hc front rest

/-- The loopback address is listed as `::1`, found as `0:0::1` and removed as the whole address. -/
theorem listed_by_address_loopback :
    let b := (Blacklist.new (.fixed ["no address"]) (.ofSeconds 3600)).run
      [.add "10.0.0.1" 0, .contains "10.0.0.1" ⟨5, 5⟩, .remove " 10.0.0.1\t"]
    let listed := b.perform (.add "::1" 0)
    b.Unlisted 9 ∧ SameAddress "::1" " 0:0::1" ∧ SameAddress "::1" "0:0:0:0:0:0:0:1" ∧
      (listed.contains " 0:0::1" ⟨7, 9⟩).1 = some .dynamic ∧
      (listed.remove "0:0:0:0:0:0:0:1").1 = true := by
  intro b listed
  have hb : b.Unlisted 9 := ⟨by decide +kernel, by decide +kernel⟩
  have hshort : SameAddress "::1" " 0:0::1" :=
    ⟨.v6 [0, 0, 0, 0, 0, 0, 0, 1] rfl, by decide +kernel, by decide +kernel⟩
  have hlong : SameAddress "::1" "0:0:0:0:0:0:0:1" :=
    ⟨.v6 [0, 0, 0, 0, 0, 0, 0, 1] rfl, by decide +kernel, by decide +kernel⟩
  obtain ⟨-, -, -, hone, -⟩ := listed_by_address (.fixed ["no address"]) (.ofSeconds 3600)
    [.add "10.0.0.1" 0, .contains "10.0.0.1" ⟨5, 5⟩, .remove " 10.0.0.1\t"] ⟨7, 9⟩
  exact ⟨hb, hshort, hlong, (hone hb _ _).1.mpr hshort, (hone hb _ _).2.2.mpr hlong⟩

end EdgeGateway.Blacklist

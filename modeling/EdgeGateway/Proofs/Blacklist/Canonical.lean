import EdgeGateway.Blacklist.Basic
import EdgeGateway.Proofs.KeyMap
import EdgeGateway.Proofs.Net.Address

/-! # The keys of a blacklist

Whatever is done to a blacklist, the keys of both of its lists stay canonical texts of addresses
(`Canonical.run`): the source of the static list may tell anything, the texts that are added may
spell their addresses in any way. A key is therefore found under the canonical text of its
address alone, and to be listed is a property of an address (`exists_entry_iff`). -/

namespace EdgeGateway.Blacklist

open Text

/-! ### Canonical texts -/

/-- The text is the canonical one of an address. -/
def IsCanonical (ip : String) : Prop := ∃ a : Address, ip = a.text

theorem parse?_text (a : Address) : Address.parse? a.text.toList = some a := by
  rw [Address.text, String.toList_ofList, Address.parse?_render]

theorem canonical?_eq_some {s : List Char} {ip : String} (h : canonical? s = some ip) :
    IsCanonical ip := by
  obtain ⟨a, -, rfl⟩ := Option.map_eq_some_iff.1 h
  exact ⟨a, rfl⟩

theorem canonical?_of_parse? {s : List Char} {a : Address} (h : Address.parse? (trim s) = some a) :
    canonical? s = some a.text := by
  rw [canonical?, h, Option.map_some]

theorem key_of_parse? {x : String} {a : Address}
    (h : Address.parse? (trim x.toList) = some a) : key x = a.text := by
  rw [key, canonical?_of_parse? h, Option.getD_some]

theorem isCanonical_of_mem_addresses {t : List Char} {ip : String} (h : ip ∈ addresses t) :
    IsCanonical ip := by
  obtain ⟨s, -, hs⟩ := List.mem_filterMap.1 h
  exact canonical?_eq_some hs

universe u

variable {α : Type u}

/-- Every key of the map is a canonical text. -/
def KeysCanonical (m : KeyMap α) : Prop := ∀ ip ∈ m.keys, IsCanonical ip

namespace KeysCanonical

variable {m : KeyMap α}

theorem empty : KeysCanonical (KeyMap.empty : KeyMap α) := by
  intro ip h
  simp [KeyMap.empty, KeyMap.keys] at h

theorem insert (h : KeysCanonical m) {ip : String} (hip : IsCanonical ip) (v : α) :
    KeysCanonical (m.insert ip v) := by
  intro k hk
  obtain ⟨w, hw⟩ := (KeyMap.mem_keys_iff _).1 hk
  rw [KeyMap.get?_insert] at hw
  split at hw
  next he => exact he ▸ hip
  next => exact h k ((KeyMap.mem_keys_iff m).2 ⟨w, hw⟩)

theorem erase (h : KeysCanonical m) (ip : String) : KeysCanonical (m.erase ip) := by
  intro k hk
  obtain ⟨w, hw⟩ := (KeyMap.mem_keys_iff _).1 hk
  rw [KeyMap.get?_erase] at hw
  split at hw
  next => cases hw
  next => exact h k ((KeyMap.mem_keys_iff m).2 ⟨w, hw⟩)

theorem foldl_insert {ι : Type} (key : ι → String) (value : ι → α) {l : List ι}
    (hl : ∀ i ∈ l, IsCanonical (key i)) (h : KeysCanonical m) :
    KeysCanonical (l.foldl (fun m i => m.insert (key i) (value i)) m) := by
  induction l generalizing m with
  | nil => exact h
  | cons i l ih =>
    rw [List.foldl_cons]
    exact ih (fun j hj => hl j (by simp [hj])) (h.insert (hl i (by simp)) _)

theorem addressSet {ips : List String} (h : ∀ ip ∈ ips, IsCanonical ip) :
    KeysCanonical (AddressSet.ofList ips) := by
  refine foldl_insert Prod.fst Prod.snd (fun e he => ?_) empty
  obtain ⟨ip, hip, rfl⟩ := List.mem_map.1 he
  exact h ip hip

end KeysCanonical

/-- An entry whose key writes an address is the one under the canonical text of that address. -/
theorem exists_entry_iff {m : KeyMap α} (h : KeysCanonical m) (a : Address) (P : α → Prop) :
    (∃ e ∈ m.entries, Address.parse? e.1.toList = some a ∧ P e.2) ↔
      ∃ v, m.get? a.text = some v ∧ P v := by
  constructor
  · rintro ⟨⟨k, v⟩, he, hk, hv⟩
    have hget := m.get?_eq_some_iff.2 he
    obtain ⟨a', rfl⟩ := h k (m.mem_keys_iff.2 ⟨v, hget⟩)
    rw [parse?_text, Option.some.injEq] at hk
    exact ⟨v, hk ▸ hget, hv⟩
  · rintro ⟨v, hget, hv⟩
    exact ⟨(a.text, v), m.get?_eq_some_iff.1 hget, parse?_text a, hv⟩

/-- A source loads canonical texts only. -/
theorem keysCanonical_load {s : Source} {ips : AddressSet} (h : s.load = .ok ips) :
    KeysCanonical ips := by
  match s with
  | .fixed texts =>
    cases h
    refine KeysCanonical.addressSet fun ip hip => ?_
    obtain ⟨t, -, ht⟩ := List.mem_filterMap.1 hip
    exact canonical?_eq_some ht
  | .file path f =>
    rw [Source.load] at h
    split at h
    next =>
      cases h
      exact KeysCanonical.addressSet fun ip => isCanonical_of_mem_addresses
    next => cases h
  | .failing message => cases h

/-! ### What is done to a blacklist -/

/-- What is done to a blacklist. -/
inductive Operation
  | add (ip : String) (expiry : UInt64)
  | addFor (ip : String) (now : UInt64) (d : Duration)
  | remove (ip : String)
  | bootstrap (path : String) (f : File)
  | contains (ip : String) (at_ : Readings)
  | reload (refresh : UInt64)
  | replace (source : Source)

/-- The blacklist after an operation; what fails changes nothing. -/
def perform (b : Blacklist) : Operation → Blacklist
  | .add ip expiry => (b.add ip expiry).toOption.getD b
  | .addFor ip now d => (b.addFor ip now d).toOption.getD b
  | .remove ip => (b.remove ip).2
  | .bootstrap path f => ((b.bootstrap path f).toOption.map Prod.snd).getD b
  | .contains ip at_ => (b.contains ip at_).2
  | .reload refresh => (b.reload refresh).2
  | .replace source => { b with source }

def run (b : Blacklist) (ops : List Operation) : Blacklist := ops.foldl perform b

/-- An address is listed under its canonical text. -/
theorem add_of_parse? (b : Blacklist) {ip : String} {a : Address}
    (h : Address.parse? (trim ip.toList) = some a) (expiry : UInt64) :
    b.add ip expiry = .ok { b with dynamic := b.dynamic.insert a.text expiry } := by
  -- the equations of this function are slow to generate
  delta Blacklist.add
  rw [canonical?_of_parse? h]

/-- What is no address is not listed. -/
theorem perform_add_of_parse?_eq_none (b : Blacklist) {ip : String}
    (h : Address.parse? (trim ip.toList) = none) (expiry : UInt64) :
    b.perform (.add ip expiry) = b := by
  have hnone : canonical? ip.toList = none := by rw [canonical?, h, Option.map_none]
  rw [perform]
  delta Blacklist.add
  rw [hnone]
  rfl

/-! ### One look-up -/

/-- The static list that a look-up goes by: the one at hand until it is due, then what the source
tells, and the one at hand again while the source fails. -/
def currentFixed (b : Blacklist) (refresh : UInt64) : AddressSet :=
  if refresh < b.fixed.due then b.fixed.value else b.source.load.toOption.getD b.fixed.value

/-- Reading the static list gives the current one, leaves it behind, and touches nothing else. -/
theorem readFixed_eq (b : Blacklist) (refresh : UInt64) : ∃ due,
    b.readFixed refresh = (b.currentFixed refresh,
      { b with fixed := ⟨b.currentFixed refresh, due⟩ }) := by
  rcases Decidable.em (refresh < b.fixed.due) with hdue | hdue
  · refine ⟨b.fixed.due, ?_⟩
    simp only [readFixed, Refresh.Cell.read, Refresh.Cell.fresh?, currentFixed, if_pos hdue]
  · simp only [readFixed, Refresh.Cell.read, Refresh.Cell.fresh?, currentFixed, if_neg hdue]
    rcases b.source.load with e | ips
    · exact ⟨_, rfl⟩
    · exact ⟨_, rfl⟩

/-- A look-up that nobody interferes with lists the address until its entry expires, and takes an
expired entry off the list. -/
theorem lookUp_id (d : Expiries) (ip : String) (now : UInt64) :
    lookUp d ip now id = match d.get? ip with
      | none => (false, d)
      | some e => if isExpired e now then (false, d.erase ip) else (true, d) := by
  rcases hget : d.get? ip with - | e
  · simp [lookUp, Look.begin, hget, Look.listed]
  · rcases hexp : isExpired e now
    · simp [lookUp, Look.begin, hget, Look.judge, hexp, Look.settle, Look.listed]
    · simp [lookUp, Look.begin, hget, Look.judge, hexp, Look.settle, Look.listed]

/-- A read leaves the old value in the cell or the one that was loaded. -/
theorem read_value {ε : Type} (mode : Refresh.Mode) (window : Duration) (now : UInt64)
    (loaded : Except ε α) (c : Refresh.Cell α) :
    (c.read mode window now loaded).2.value = c.value ∨
      loaded = .ok (c.read mode window now loaded).2.value := by
  rw [Refresh.Cell.read]
  split
  next => exact .inl rfl
  next =>
    match loaded, mode with
    | .ok a, _ => exact .inr rfl
    | .error e, .failing => exact .inl rfl
    | .error e, .serveStale => exact .inl rfl

/-- The answer of a look-up, from the two lists. -/
theorem contains_fst (b : Blacklist) (ip : String) (at_ : Readings) : (b.contains ip at_).1 =
    if (b.currentFixed at_.refresh).contains (key ip) then some .static
    else if (b.dynamic.get? (key ip)).any fun e => !isExpired e at_.wall then some .dynamic
    else none := by
  obtain ⟨due, hread⟩ := b.readFixed_eq at_.refresh
  simp only [contains, containsDuring, hread, lookUp_id]
  split
  · rfl
  · rcases hget : b.dynamic.get? (key ip) with _ | e
    · rfl
    · rcases hexp : isExpired e at_.wall <;> simp [hexp]

/-- What a look-up leaves behind: it takes off the entry of its address alone, and only when that
has expired. -/
theorem contains_snd (b : Blacklist) (ip : String) (at_ : Readings) : ∃ due,
    (b.contains ip at_).2 = { b with fixed := ⟨b.currentFixed at_.refresh, due⟩ } ∨
      (∃ e, b.dynamic.get? (key ip) = some e ∧ isExpired e at_.wall = true) ∧
        (b.contains ip at_).2 = { b with
          fixed := ⟨b.currentFixed at_.refresh, due⟩, dynamic := b.dynamic.erase (key ip) } := by
  obtain ⟨due, hread⟩ := b.readFixed_eq at_.refresh
  refine ⟨due, ?_⟩
  simp only [contains, containsDuring, hread, lookUp_id]
  split
  · exact .inl rfl
  · rcases hget : b.dynamic.get? (key ip) with _ | e
    · exact .inl rfl
    · rcases hexp : isExpired e at_.wall
      · exact .inl (by simp [hexp])
      · exact .inr ⟨⟨e, rfl, hexp⟩, by simp [hexp]⟩

/-- The entry of another address is not touched when one is added. -/
theorem get?_perform_add {b : Blacklist} {ip k : String} (expiry : UInt64) (h : key ip ≠ k) :
    (b.perform (.add ip expiry)).dynamic.get? k = b.dynamic.get? k := by
  rw [perform]
  delta Blacklist.add
  rcases hip : canonical? ip.toList with _ | k'
  · rfl
  · have hk : k' ≠ k := by rwa [key, hip] at h
    show (b.dynamic.insert k' expiry).get? k = _
    rw [KeyMap.get?_insert, if_neg hk.symm]

/-! ### The invariant -/

/-- The keys of both lists are canonical texts. -/
structure Canonical (b : Blacklist) : Prop where
  fixed : KeysCanonical b.fixed.value
  dynamic : KeysCanonical b.dynamic

namespace Canonical

variable {b : Blacklist}

theorem new (source : Source) (window : Duration) : (Blacklist.new source window).Canonical :=
  ⟨.empty, .empty⟩

theorem currentFixed (h : b.Canonical) (refresh : UInt64) :
    KeysCanonical (b.currentFixed refresh) := by
  rw [Blacklist.currentFixed]
  split
  next => exact h.fixed
  next =>
    rcases hload : b.source.load with e | ips
    · exact h.fixed
    · exact keysCanonical_load hload

theorem add (h : b.Canonical) (ip : String) (expiry : UInt64) :
    (b.perform (.add ip expiry)).Canonical := by
  rw [perform]
  delta Blacklist.add
  split
  next hip => exact ⟨h.fixed, h.dynamic.insert (canonical?_eq_some hip) expiry⟩
  next => exact h

theorem bootstrap (h : b.Canonical) (path : String) (f : File) :
    (b.perform (.bootstrap path f)).Canonical := by
  rw [perform]
  unfold Blacklist.bootstrap
  split
  next => exact h
  next => exact h
  next =>
    exact ⟨h.fixed, h.dynamic.foldl_insert id (fun _ => 0) fun _ => isCanonical_of_mem_addresses⟩

theorem contains (h : b.Canonical) (ip : String) (at_ : Readings) :
    (b.perform (.contains ip at_)).Canonical := by
  rw [perform]
  obtain ⟨due, hb | ⟨-, hb⟩⟩ := b.contains_snd ip at_
  · rw [hb]
    exact ⟨h.currentFixed at_.refresh, h.dynamic⟩
  · rw [hb]
    exact ⟨h.currentFixed at_.refresh, h.dynamic.erase _⟩

theorem reload (h : b.Canonical) (refresh : UInt64) :
    (b.perform (.reload refresh)).Canonical := by
  refine ⟨?_, h.dynamic⟩
  rcases read_value .failing b.window refresh b.source.load b.fixed.invalidate with hv | hload
  · exact hv ▸ h.fixed
  · exact keysCanonical_load hload

/-- One operation keeps the keys canonical. -/
theorem perform (h : b.Canonical) : ∀ op, (b.perform op).Canonical
  | .add ip expiry => h.add ip expiry
  | .addFor ip now d => h.add ip (expiryAfter now d)
  | .remove ip => ⟨h.fixed, h.dynamic.erase (key ip)⟩
  | .bootstrap path f => h.bootstrap path f
  | .contains ip at_ => h.contains ip at_
  | .reload refresh => h.reload refresh
  | .replace _ => ⟨h.fixed, h.dynamic⟩

/-- **Whatever is done to a blacklist**, its keys stay canonical texts. -/
theorem run (h : b.Canonical) (ops : List Operation) : (b.run ops).Canonical := by
  induction ops generalizing b with
  | nil => exact h
  | cons op ops ih => exact ih (h.perform op)

end Canonical

/-! ### Which addresses are listed -/

/-- The address is on the current static list, or has an entry that has not expired. -/
def Lists (b : Blacklist) (at_ : Readings) (a : Address) : Prop :=
  (∃ ip ∈ (b.currentFixed at_.refresh).keys, Address.parse? ip.toList = some a) ∨
    ∃ e ∈ b.dynamic.entries, Address.parse? e.1.toList = some a ∧ (e.2 = 0 ∨ at_.wall < e.2)

theorem isExpired_eq_false_iff (expiry now : UInt64) :
    isExpired expiry now = false ↔ expiry = 0 ∨ now < expiry := by
  rw [isExpired, isPermanent, Bool.and_eq_false_iff, Bool.not_eq_false', beq_iff_eq,
    decide_eq_false_iff_not, UInt64.not_le]

theorem Canonical.lists_iff {b : Blacklist} (h : b.Canonical) (at_ : Readings) (a : Address) :
    b.Lists at_ a ↔ (b.currentFixed at_.refresh).contains a.text ∨
      ∃ e, b.dynamic.get? a.text = some e ∧ isExpired e at_.wall = false := by
  have hfixed := exists_entry_iff (h.currentFixed at_.refresh) a fun _ => True
  have hdynamic := exists_entry_iff h.dynamic a fun e => isExpired e at_.wall = false
  simp only [isExpired_eq_false_iff, and_true] at hfixed hdynamic ⊢
  rw [Lists, hdynamic, KeyMap.contains, Option.isSome_iff_exists, ← hfixed, KeyMap.keys]
  simp only [List.mem_map, exists_exists_and_eq_and]

/-- **A look-up finds exactly the listed addresses**, however the text spells the address. -/
theorem Canonical.isSome_contains_iff {b : Blacklist} (h : b.Canonical) {ip : String} {a : Address}
    (hip : Address.parse? (trim ip.toList) = some a) (at_ : Readings) :
    (b.contains ip at_).1.isSome ↔ b.Lists at_ a := by
  rw [h.lists_iff, contains_fst, key_of_parse? hip]
  split
  next hfixed => simp [hfixed]
  next hfixed =>
    rcases hget : b.dynamic.get? a.text with - | e
    · simp [hfixed]
    · rcases hexp : isExpired e at_.wall <;> simp [hfixed, hexp]

end EdgeGateway.Blacklist

import EdgeGateway.Proofs.RequestId.Fields

/-! # The numbers within a millisecond

The ids that a generator issues at one reading are numbered from 0, and when 4096 of them are issued
a call waits for a later reading. All of this is told from outside: by the readings that the calls
of a run took and the ids that they issued (`turns`, `idsAt`).

* `Tallied`: what was issued at each reading, and how the state of the generator sums it up.
* `Continues`: what the next call does, told by what was issued before it.
* `Tallied.serves`, `Tallied.next`: one call adds the next number of a reading, or nothing.
* `numbers_consecutive`: the numbers of a run, and what its next call does. -/

namespace EdgeGateway.RequestId.Generator

/-- A call that has come to its end: the readings it took, and its outcome. -/
structure Turn where
  readings : List UInt64
  outcome : Outcome

/-- So many calls, or as many as the readings are enough for. -/
def turns (g : Generator) : Nat → List UInt64 → List Turn
  | 0, _ => []
  | n + 1, rs =>
    match g.next? rs with
    | none => []
    | some (o, g', rest) => ⟨rs.take (rs.length - rest.length), o⟩ :: g'.turns n rest

/-- The ids that were issued at a reading, which is the last one that their calls took. -/
def idsAt (t : UInt64) (past : List Turn) : List UInt64 :=
  past.filterMap fun c => if c.readings.getLast? = some t then c.outcome.toOption else none

/-- The number of an id within its millisecond. -/
def number (id : UInt64) : Nat := (decompose id).sequence.toNat

/-- The reading is before the epoch, or before one at which an id was issued. -/
def Early (past : List Turn) (now : UInt64) : Prop :=
  now < epoch ∨ ∃ t, now < t ∧ idsAt t past ≠ []

/-- The generator after it has issued the number `s` at the reading `t`. -/
def stamped (g : Generator) (t s : UInt64) : Generator := { g with last := t, sequence := s }

/-- The tally of the calls so far: the numbers at each reading are without gaps, and the generator
knows the latest reading and the last number there. -/
structure Tallied (g : Generator) (past : List Turn) : Prop where
  sound : g.Sound
  numbers : ∀ t, (idsAt t past).map number = List.range (idsAt t past).length
  bounded : ∀ t, (idsAt t past).length ≤ 2 ^ 12
  dated : ∀ t, t.toNat < epoch.toNat + 2 ^ 41 → ∀ id ∈ idsAt t past, (decompose id).timestamp = t
  latest : epoch ≤ g.last → (idsAt g.last past).length = g.sequence.toNat + 1
  none_later : ∀ t, g.last < t → idsAt t past = []

/-- What the next call does, told by the ids that were issued before it. -/
structure Continues (g : Generator) (past : List Turn) (now : UInt64) (rest : List UInt64) :
    Prop where
  /-- A call that is refused takes one reading and changes nothing. -/
  unchanged : ∀ e g' rest', g.next? (now :: rest) = some (.error e, g', rest') →
    g' = g ∧ rest' = rest
  /-- An early reading is refused. -/
  refused : Early past now →
    ∃ last, g.next? (now :: rest) = some (.error (.clockBackwards last now), g, rest)
  /-- Any other one is enough for the next number, as long as there is one. -/
  numbered : ¬ Early past now → (idsAt now past).length < 2 ^ 12 →
    ∃ id g', g.next? (now :: rest) = some (.ok id, g', rest) ∧ g'.last = now ∧
      number id = (idsAt now past).length
  /-- When there is none, the call takes all readings up to the first later one. -/
  waited : ¬ Early past now → (idsAt now past).length = 2 ^ 12 →
    ∀ front later rest', rest = front ++ later :: rest' → (∀ t ∈ front, t ≤ now) → now < later →
      ∃ id g', g.next? (now :: rest) = some (.ok id, g', rest') ∧ g'.last = later ∧
        number id = 0
  /-- Until then it goes on. -/
  waiting : ¬ Early past now → (idsAt now past).length = 2 ^ 12 → (∀ t ∈ rest, t ≤ now) →
    g.next? (now :: rest) = none

variable {g g' w : Generator} {now t s : UInt64} {rs rest : List UInt64} {o : Outcome}
  {past : List Turn}

/-! ### The ids of a reading -/

theorem turns_succ {used : List UInt64} (hn : g.next? (used ++ rest) = some (o, g', rest)) (n : Nat) :
    g.turns (n + 1) (used ++ rest) = ⟨used, o⟩ :: g'.turns n rest := by
  simp only [turns, hn, List.length_append, Nat.add_sub_cancel, List.take_left]

theorem idsAt_issued (past : List Turn) (front : List UInt64) (id t' : UInt64) :
    idsAt t' (past ++ [⟨front ++ [t], .ok id⟩]) =
      if t = t' then idsAt t' past ++ [id] else idsAt t' past := by
  simp only [idsAt, List.filterMap_append, List.filterMap_cons, List.filterMap_nil,
    List.getLast?_concat, Option.some.injEq]
  split_ifs
  · rfl
  · exact List.append_nil _

theorem idsAt_refused (past : List Turn) (readings : List UInt64) (e : GatewayError) :
    idsAt t (past ++ [⟨readings, .error e⟩]) = idsAt t past := by
  unfold idsAt
  rw [List.filterMap_append, List.filterMap_cons, List.filterMap_nil]
  split_ifs
  · exact List.append_nil _
  · exact List.append_nil _

theorem Sound.placed (h : g.Sound) : g.parts.Placed := ⟨h.datacenter, h.worker, h.sequence⟩

theorem Sound.stamped (h : g.Sound) (t : UInt64) (hs : s.toNat < 2 ^ 12) : (g.stamped t s).Sound :=
  ⟨h.worker, h.datacenter, hs⟩

theorem number_compose (h : g.Sound) : number (compose g.parts) = g.sequence.toNat :=
  congrArg UInt64.toNat (decompose_placed h.placed).2.2

/-! ### What a call adds -/

/-- **An id that is issued** with the next number of a reading that is not before the last one. -/
theorem Tallied.issue (h : Tallied g past) (hlast : g.last ≤ t) (he : epoch ≤ t)
    (hs : s.toNat < 2 ^ 12) (hcount : (idsAt t past).length = s.toNat) (front : List UInt64) :
    Tallied (g.stamped t s) (past ++ [⟨front ++ [t], .ok (compose (g.stamped t s).parts)⟩]) := by
  have hsound := h.sound.stamped t hs
  have hle := UInt64.le_iff_toNat_le.mp hlast
  constructor
  case sound => exact hsound
  case numbers =>
    intro t'
    rw [idsAt_issued]
    split_ifs with ht
    · subst ht
      rw [List.map_append, h.numbers, List.map_singleton, number_compose hsound,
        List.length_append, List.length_singleton, List.range_succ, hcount]
      rfl
    · exact h.numbers t'
  case bounded =>
    intro t'
    rw [idsAt_issued]
    split_ifs with ht
    · subst ht
      rw [List.length_append, List.length_singleton, hcount]
      exact hs
    · exact h.bounded t'
  case dated =>
    intro t' ht' id
    rw [idsAt_issued]
    split_ifs with ht
    · subst ht
      intro hid
      rcases List.mem_append.mp hid with hid | hid
      · exact h.dated t ht' id hid
      · have hrange : (g.stamped t s).parts.InRange :=
          hsound.inRange (UInt64.le_iff_toNat_le.mp he) ht'
        rw [List.mem_singleton.mp hid, decompose_compose hrange]
        rfl
    · exact h.dated t' ht' id
  case latest =>
    intro _
    show (idsAt t _).length = s.toNat + 1
    rw [idsAt_issued, if_pos rfl, List.length_append, List.length_singleton, hcount]
  case none_later =>
    intro t' ht'
    have hlt : t.toNat < t'.toNat := UInt64.lt_iff_toNat_lt.mp ht'
    rw [idsAt_issued, if_neg (by rintro rfl; omega)]
    exact h.none_later t' (UInt64.lt_iff_toNat_lt.mpr (by omega))

theorem Tallied.refuse (h : Tallied g past) (readings : List UInt64) (e : GatewayError) :
    Tallied g (past ++ [⟨readings, .error e⟩]) := by
  constructor
  case sound => exact h.sound
  all_goals simp only [idsAt_refused]
  case numbers => exact h.numbers
  case bounded => exact h.bounded
  case dated => exact h.dated
  case latest => exact h.latest
  case none_later => exact h.none_later

/-- A reading is early exactly if a call refuses it. -/
theorem Tallied.early_iff (h : Tallied g past) : Early past now ↔ now < g.last ∨ now < epoch := by
  constructor
  · rintro (he | ⟨t, hlt, hne⟩)
    · exact Or.inr he
    · have hle : t ≤ g.last := UInt64.not_lt.mp fun hlast => hne (h.none_later t hlast)
      exact Or.inl (UInt64.lt_of_lt_of_le hlt hle)
  · rintro (hlt | he)
    · -- Before its first id the generator knows no reading, and its last one is not a reading.
      by_cases hlast : epoch ≤ g.last
      · refine Or.inr ⟨g.last, hlt, fun hnil => ?_⟩
        have hlength := h.latest hlast
        rw [hnil] at hlength
        cases hlength
      · exact Or.inl (UInt64.lt_trans hlt (UInt64.not_le.mp hlast))
    · exact Or.inl he

theorem Tallied.not_early_iff (h : Tallied g past) :
    ¬ Early past now ↔ g.last ≤ now ∧ epoch ≤ now := by
  rw [h.early_iff, not_or, UInt64.not_lt, UInt64.not_lt]

/-- **What a call does** is told by what was issued before: it is refused, or issues the next number
of its first reading, or waits where all numbers are used up. -/
theorem Tallied.serves (h : Tallied g past) (now : UInt64) (rest : List UInt64) :
    (Early past now ∧ g.next? (now :: rest) =
      some (.error (.clockBackwards (max g.last epoch) now), g, rest)) ∨
    (¬ Early past now ∧ ∃ s : UInt64, s.toNat = (idsAt now past).length ∧ s.toNat < 2 ^ 12 ∧
      g.next? (now :: rest) =
        some (.ok (compose (g.stamped now s).parts), g.stamped now s, rest)) ∨
    (¬ Early past now ∧ (idsAt now past).length = 2 ^ 12 ∧
      g.next? (now :: rest) = (g.stamped now 0).await? rest) := by
  rw [next?]
  generalize hc : g.begin now = c
  cases hc ▸ begins h.sound now with
  | refused href => exact Or.inl ⟨h.early_iff.mpr href, rfl⟩
  | repeated heq he hs =>
    have hnext := toNat_add_one hs
    have hcount : (g.sequence + 1).toNat = (idsAt now past).length := by
      rw [hnext, heq, h.latest (heq ▸ he)]
    have hearly : ¬ Early past now := h.not_early_iff.mpr ⟨UInt64.le_of_eq heq.symm, he⟩
    exact Or.inr (Or.inl ⟨hearly, g.sequence + 1, hcount, by omega, rfl⟩)
  | exhausted heq he hs =>
    subst heq
    have hearly : ¬ Early past g.last := h.not_early_iff.mpr ⟨UInt64.le_refl _, he⟩
    exact Or.inr (Or.inr ⟨hearly, (h.latest he).trans hs, rfl⟩)
  | later hlt he =>
    have hcount : (0 : UInt64).toNat = (idsAt now past).length := by
      rw [h.none_later now hlt]
      rfl
    have hearly : ¬ Early past now := h.not_early_iff.mpr ⟨UInt64.le_of_lt hlt, he⟩
    exact Or.inr (Or.inl ⟨hearly, 0, hcount, zero_lt_sequences, rfl⟩)

/-- **A call** adds the next number of its last reading, or nothing if it is refused. -/
theorem Tallied.next (h : Tallied g past) (hn : g.next? rs = some (o, g', rest)) :
    ∃ used, rs = used ++ rest ∧ Tallied g' (past ++ [⟨used, o⟩]) := by
  cases rs with
  | nil => cases hn
  | cons now rs =>
    rcases h.serves now rs with ⟨-, href⟩ | ⟨hearly, s, hs, hlt, hok⟩ | ⟨hearly, -, hwait⟩
    · rw [href] at hn
      cases hn
      exact ⟨[now], rfl, h.refuse _ _⟩
    · obtain ⟨hlast, he⟩ := h.not_early_iff.mp hearly
      rw [hok] at hn
      cases hn
      exact ⟨[now], rfl, h.issue hlast he hlt hs.symm []⟩
    · -- The id is issued at a reading after the last one, where no id was issued yet.
      obtain ⟨hlast, he⟩ := h.not_early_iff.mp hearly
      rw [hwait] at hn
      obtain ⟨front, later, rfl, hlater, rfl, rfl⟩ := exists_of_await? hn
      have hlt : g.last < later := UInt64.lt_of_le_of_lt hlast hlater
      have he' : epoch ≤ later := UInt64.le_of_lt (UInt64.lt_of_le_of_lt he hlater)
      have hfresh : (idsAt later past).length = 0 := by
        rw [h.none_later later hlt]
        rfl
      refine ⟨now :: front ++ [later], ?_, ?_⟩
      · rw [List.append_assoc]
        rfl
      · exact h.issue (UInt64.le_of_lt hlt) he' zero_lt_sequences hfresh (now :: front)

theorem tallied_create {worker datacenter : UInt64} (h : create worker datacenter = .ok g) :
    Tallied g [] where
  sound := sound_of_create h
  numbers _ := rfl
  bounded _ := Nat.zero_le _
  dated _ _ _ hid := absurd hid List.not_mem_nil
  latest he := by
    have hlast : g.last = 0 := by
      unfold create at h
      split_ifs at h
      rw [← Except.ok.inj h]
    rw [hlast] at he
    exact absurd he (by decide)
  none_later _ _ := rfl

/-- **A run** keeps the tally. -/
theorem Tallied.run (h : Tallied g past) (n : Nat) (rs : List UInt64) :
    ∃ g₁, Tallied g₁ (past ++ g.turns n rs) ∧
      ∀ g' rest, g.after? n rs = some (g', rest) → g' = g₁ := by
  -- From the first call on, so that the state and what was issued before it vary together.
  induction n generalizing g past rs with
  | zero =>
    refine ⟨g, ?_, fun g' rest ha => ?_⟩
    · rw [turns, List.append_nil]
      exact h
    · cases ha
      rfl
  | succ n ih =>
    rcases hn : g.next? rs with _ | ⟨o, g', rest⟩
    · refine ⟨g, ?_, fun g' rest ha => ?_⟩
      · rw [turns, hn, List.append_nil]
        exact h
      · rw [after?, hn] at ha
        cases ha
    · obtain ⟨used, rfl, hnext⟩ := h.next hn
      obtain ⟨g₁, ht, hg₁⟩ := ih hnext rest
      refine ⟨g₁, ?_, fun g' rest ha => ?_⟩
      · rw [turns_succ hn, List.append_cons]
        exact ht
      · rw [after?, hn] at ha
        exact hg₁ _ _ ha

/-- What was issued before tells what the next call does. -/
theorem Tallied.continues (h : Tallied g past) (now : UInt64) (rest : List UInt64) :
    Continues g past now rest := by
  rcases h.serves now rest with ⟨he, hn⟩ | ⟨he, s, hs, hlt, hn⟩ | ⟨he, hk, hn⟩
  · constructor
    case unchanged =>
      intro e g' rest' hc
      rw [hn] at hc
      cases hc
      exact ⟨rfl, rfl⟩
    case refused => exact fun _ => ⟨_, hn⟩
    all_goals exact fun hne => absurd he hne
  · constructor
    case unchanged =>
      intro e g' rest' hc
      rw [hn] at hc
      cases hc
    case refused => exact fun hearly => absurd hearly he
    case numbered =>
      exact fun _ _ => ⟨_, _, hn, rfl, (number_compose (h.sound.stamped now hlt)).trans hs⟩
    all_goals
      intro _ hk
      omega
  · constructor
    case unchanged =>
      intro e g' rest' hc
      rw [hn] at hc
      obtain ⟨front, later, -, -, hok, -⟩ := exists_of_await? hc
      cases hok
    case refused => exact fun hearly => absurd hearly he
    case numbered =>
      intro _ hlt
      omega
    case waited =>
      rintro - - front later rest' rfl hfront hlater
      have hend := await?_cons_of_lt (w := g.stamped now 0) hlater rest'
      rw [← await?_append hfront, ← hn] at hend
      exact ⟨_, _, hend, rfl, number_compose (h.sound.stamped later zero_lt_sequences)⟩
    case waiting =>
      intro _ _ hrest
      rw [hn, ← List.append_nil rest]
      exact await?_append hrest []

/-- While the clock stands still, each call takes one reading until the numbers are used up. -/
theorem Tallied.standing (h : Tallied g past) (hearly : ¬ Early past t) (k : Nat)
    (hk : (idsAt t past).length + k ≤ 2 ^ 12) (rs : List UInt64) :
    ∃ g', g.after? k (List.replicate k t ++ rs) = some (g', rs) ∧
      ¬ Early (past ++ g.turns k (List.replicate k t ++ rs)) t ∧
      (idsAt t (past ++ g.turns k (List.replicate k t ++ rs))).length =
        (idsAt t past).length + k := by
  induction k generalizing g past with
  | zero =>
    rw [turns, List.append_nil]
    exact ⟨g, rfl, hearly, rfl⟩
  | succ k ih =>
    rcases h.serves t (List.replicate k t ++ rs) with he | ⟨-, s, hs, hlt, hn⟩ | ⟨-, hfull, -⟩
    · exact absurd he.1 hearly
    · obtain ⟨hlast, he⟩ := h.not_early_iff.mp hearly
      have hnext : Tallied (g.stamped t s)
          (past ++ [⟨[t], .ok (compose (g.stamped t s).parts)⟩]) := h.issue hlast he hlt hs.symm []
      have hstill := hnext.not_early_iff.mpr ⟨UInt64.le_refl t, he⟩
      have hcount : (idsAt t (past ++ [_])).length = s.toNat + 1 := hnext.latest he
      obtain ⟨g', ha, hend, hlength⟩ := ih hnext hstill (by omega)
      change g.next? ([t] ++ (List.replicate k t ++ rs)) = _ at hn
      rw [List.replicate_succ, List.cons_append, ← List.singleton_append, turns_succ hn, after?, hn,
        List.append_cons]
      exact ⟨g', ha, hend, by omega⟩
    · omega

/-- **No number is skipped or used twice.** Whatever the clock shows, the ids that a run has issued at
one reading have the numbers 0, 1, 2, … in this order and are at most 4096, also where calls were
refused in between. The call after them takes one reading: it is refused and changes nothing, or
issues the next number of that reading; only if all its numbers are used up the call goes on to the
first later reading, and issues the number 0 there. -/
theorem numbers_consecutive {worker datacenter : UInt64} (h : create worker datacenter = .ok g)
    (n : Nat) (rs : List UInt64) :
    let past := g.turns n rs
    (∀ t, (idsAt t past).map number = List.range (idsAt t past).length ∧
      (idsAt t past).length ≤ 2 ^ 12 ∧
      (t.toNat < epoch.toNat + 2 ^ 41 → ∀ id ∈ idsAt t past, (decompose id).timestamp = t)) ∧
    ∀ g' now rest, g.after? n rs = some (g', now :: rest) → Continues g' past now rest := by
  intro past
  obtain ⟨g₁, ht, hg₁⟩ := (tallied_create h).run n rs
  rw [List.nil_append] at ht
  refine ⟨fun t => ⟨ht.numbers t, ht.bounded t, ht.dated t⟩, fun g' now rest ha => ?_⟩
  rw [hg₁ g' _ ha]
  exact ht.continues now rest

/-- All 4096 numbers of a reading are issued; the next call passes over the same reading and an
earlier one, and issues the number 0 at the first later one. -/
theorem numbers_consecutive_exhausted :
    let g : Generator := ⟨7, 3, 0, 0⟩
    let t := epoch + 5
    let rs := List.replicate 4096 t ++ [t, t - 1, t + 2, t + 3]
    let past := g.turns 4096 rs
    create 7 3 = .ok g ∧ (idsAt t past).map number = List.range 4096 ∧
      ∃ g' id g'', g.after? 4096 rs = some (g', [t, t - 1, t + 2, t + 3]) ∧
        g'.next? [t, t - 1, t + 2, t + 3] = some (.ok id, g'', [t + 3]) ∧ number id = 0 := by
  intro g t rs past
  have hc : create 7 3 = .ok g := rfl
  have hstart : ¬ Early [] t := (tallied_create hc).not_early_iff.mpr (by decide)
  obtain ⟨g', ha, hearly, hlength⟩ := (tallied_create hc).standing hstart 4096 (by decide)
    [t, t - 1, t + 2, t + 3]
  obtain ⟨hnumbers, hcontinues⟩ := numbers_consecutive hc 4096 rs
  obtain ⟨hrange, -, -⟩ := hnumbers t
  obtain ⟨id, g'', hn, -, hzero⟩ := (hcontinues _ _ _ ha).waited hearly hlength [t - 1] (t + 2) [t + 3]
    rfl (List.forall_mem_singleton.mpr (by decide)) (by decide)
  refine ⟨hc, ?_, _, id, g'', ha, hn, hzero⟩
  rw [hrange]
  exact congrArg List.range hlength

end EdgeGateway.RequestId.Generator

import Mathlib.Tactic.SplitIfs
import EdgeGateway.Proofs.RequestId.Layout
import EdgeGateway.RequestId.Generator

/-! # Request ids increase

A generator makes calls one after the other over the readings of a clock that may stand still, jump
or go back. What it keeps of its past is the last reading it used and the number within it, and its
*mark* is the number they make together: an issued id is the mark less a constant, a call that
issues an id raises the mark, and a call that is refused leaves the generator as it was. So the ids
of a run increase (`ids_increasing`), and the same run with arithmetic that fails when a result does
not fit has the same ids. -/

namespace EdgeGateway.RequestId.Generator

/-- So many calls, or as many as the readings are enough for. -/
def run (g : Generator) : Nat → List UInt64 → List Outcome
  | 0, _ => []
  | n + 1, rs =>
    match g.next? rs with
    | none => []
    | some (o, g', rest) => o :: g'.run n rest

/-- The ids that calls have issued. -/
def ids (os : List Outcome) : List UInt64 := os.filterMap Except.toOption

/-! ### The same calls with arithmetic that fails when a result does not fit -/

namespace Exact

def issue (g : Generator) (now : UInt64) : Option Call := do
  let id ← compose? ⟨now, g.datacenter, g.worker, g.sequence⟩
  return .issued { g with last := now } id

def begin (g : Generator) (now : UInt64) : Option Call :=
  if now < g.last ∨ now < epoch then some (.refused (max g.last epoch) now)
  else if now = g.last then
    (add? g.sequence 1).bind fun next =>
      let g := { g with sequence := next &&& sequenceMask }
      if g.sequence = 0 then some (.waiting g) else issue g now
  else issue { g with sequence := 0 } now

def resume (g : Generator) (now : UInt64) : Option Call :=
  if g.last < now then issue g now else some (.waiting g)

def await (g : Generator) : List UInt64 → Option (Option (Outcome × Generator × List UInt64))
  | [] => some none
  | now :: rest =>
    match resume g now with
    | none => none
    | some (.refused last now) => some (some (.error (.clockBackwards last now), g, rest))
    | some (.issued g id) => some (some (.ok id, g, rest))
    | some (.waiting g) => await g rest

def next (g : Generator) : List UInt64 → Option (Option (Outcome × Generator × List UInt64))
  | [] => some none
  | now :: rest =>
    match begin g now with
    | none => none
    | some (.refused last now) => some (some (.error (.clockBackwards last now), g, rest))
    | some (.issued g id) => some (some (.ok id, g, rest))
    | some (.waiting g) => await g rest

def run (g : Generator) : Nat → List UInt64 → Option (List Outcome)
  | 0, _ => some []
  | n + 1, rs =>
    match next g rs with
    | none => none
    | some none => some []
    | some (some (o, g', rest)) => (run g' n rest).map (o :: ·)

end Exact

/-! ### Generators that can be reached -/

/-- The readings fit into an id. -/
def InEra (rs : List UInt64) : Prop := ∀ t ∈ rs, t.toNat < epoch.toNat + 2 ^ 41

/-- The generator is of a worker and a datacenter in their ranges, and its number is one of those
within a millisecond. -/
structure Sound (g : Generator) : Prop where
  worker : g.worker.toNat < 2 ^ 5
  datacenter : g.datacenter.toNat < 2 ^ 5
  sequence : g.sequence.toNat < 2 ^ 12

/-- The last reading and the number within it, as they stand in an id. -/
def mark (g : Generator) : Nat :=
  2 ^ 22 * g.last.toNat + 2 ^ 17 * g.datacenter.toNat + 2 ^ 12 * g.worker.toNat + g.sequence.toNat

/-- The generator `g'` has issued an id above the mark of `g`, and has the mark of that id. -/
structure Issues (g g' : Generator) (id : UInt64) : Prop where
  sound : g'.Sound
  above : g.mark < g'.mark
  marked : id.toNat + 2 ^ 22 * epoch.toNat = g'.mark
  small : id.toNat < 2 ^ 63

/-- The generator `w` waits for a reading after the last one that `g` has used. -/
structure Waits (g w : Generator) : Prop where
  sound : w.Sound
  last : w.last = g.last
  worker : w.worker = g.worker
  datacenter : w.datacenter = g.datacenter
  fromEpoch : epoch.toNat ≤ w.last.toNat

/-- What the first reading of a call leads to. -/
inductive Begins (g : Generator) (now : UInt64) : Call → Prop
  | refused (h : now < g.last ∨ now < epoch) : Begins g now (.refused (max g.last epoch) now)
  | repeated (heq : now = g.last) (he : epoch ≤ now) (hs : g.sequence.toNat + 1 < 2 ^ 12) :
      Begins g now (issue { g with sequence := g.sequence + 1 } now)
  | exhausted (heq : now = g.last) (he : epoch ≤ now) (hs : g.sequence.toNat + 1 = 2 ^ 12) :
      Begins g now (.waiting { g with sequence := 0 })
  | later (hlt : g.last < now) (he : epoch ≤ now) :
      Begins g now (issue { g with sequence := 0 } now)

variable {g g' w : Generator} {now : UInt64} {rs rest : List UInt64}

theorem Sound.inRange (h : g.Sound) (he : epoch.toNat ≤ now.toNat)
    (ht : now.toNat < epoch.toNat + 2 ^ 41) :
    Parts.InRange ⟨now, g.datacenter, g.worker, g.sequence⟩ :=
  ⟨he, ht, h.datacenter, h.worker, h.sequence⟩

theorem Sound.withSequence (h : g.Sound) {s : UInt64} (hs : s.toNat < 2 ^ 12) :
    Sound { g with sequence := s } :=
  ⟨h.worker, h.datacenter, hs⟩

theorem Sound.mark_lt (h : g.Sound) : g.mark < 2 ^ 22 * g.last.toNat + 2 ^ 17 * g.datacenter.toNat +
    2 ^ 12 * g.worker.toNat + 2 ^ 12 := by
  have hs := h.sequence
  unfold mark
  omega

/-- An id that is issued at a later reading, or with a larger number, is above the mark. -/
theorem issues_issue (hg : g.Sound) (hw : w.Sound) (hworker : w.worker = g.worker)
    (hdatacenter : w.datacenter = g.datacenter) (he : epoch.toNat ≤ now.toNat)
    (ht : now.toNat < epoch.toNat + 2 ^ 41)
    (hlater : g.last.toNat < now.toNat ∨
      g.last.toNat = now.toNat ∧ g.sequence.toNat < w.sequence.toNat) :
    Issues g { w with last := now } (compose ⟨now, w.datacenter, w.worker, w.sequence⟩) where
  sound := ⟨hw.worker, hw.datacenter, hw.sequence⟩
  above := by
    have hm := hg.mark_lt
    simp only [mark, hworker, hdatacenter] at hm ⊢
    rcases hlater with hlt | ⟨heq, hlt⟩
    · omega
    · omega
  marked := by
    rw [toNat_compose (hw.inRange he ht)]
    simp only [mark]
    omega
  small := compose_lt (hw.inRange he ht)

theorem toNat_succ_sequence (h : g.Sound) :
    ((g.sequence + 1) &&& sequenceMask).toNat = (g.sequence.toNat + 1) % 2 ^ 12 := by
  have hs := h.sequence
  rw [toNat_and_mask (k := 12) (by decide), UInt64.toNat_add,
    show (1 : UInt64).toNat = 1 from rfl,
    Nat.mod_eq_of_lt (show g.sequence.toNat + 1 < 2 ^ 64 by omega)]

/-- The next number is larger, if it is one of those within a millisecond. -/
theorem toNat_add_one (hs : g.sequence.toNat + 1 < 2 ^ 12) :
    (g.sequence + 1).toNat = g.sequence.toNat + 1 := by
  rw [UInt64.toNat_add, show (1 : UInt64).toNat = 1 from rfl]
  omega

theorem zero_lt_sequences : (0 : UInt64).toNat < 2 ^ 12 := by decide

theorem exact_issue (h : g.Sound) (he : epoch.toNat ≤ now.toNat)
    (ht : now.toNat < epoch.toNat + 2 ^ 41) : Exact.issue g now = some (g.issue now) := by
  unfold Exact.issue
  rw [compose?_eq (h.inRange he ht)]
  rfl

/-- **The first reading of a call** leads to one of four calls. -/
theorem begins (h : g.Sound) (now : UInt64) : Begins g now (g.begin now) := by
  have hs := h.sequence
  have hsucc := toNat_succ_sequence h
  unfold begin
  by_cases href : now < g.last ∨ now < epoch
  · rw [if_pos href]
    exact .refused href
  rw [if_neg href]
  rw [not_or, UInt64.not_lt, UInt64.not_lt] at href
  obtain ⟨hle, he⟩ := href
  by_cases heq : now = g.last
  · rw [if_pos heq]
    by_cases hlt : g.sequence.toNat + 1 < 2 ^ 12
    · have hnext : (g.sequence + 1) &&& sequenceMask = g.sequence + 1 := by
        rw [← UInt64.toNat_inj, hsucc, toNat_add_one hlt, Nat.mod_eq_of_lt hlt]
      have hpos : g.sequence + 1 ≠ 0 := by
        rw [← hnext, Ne, ← UInt64.toNat_inj, hsucc, show (0 : UInt64).toNat = 0 from rfl]
        omega
      dsimp only
      rw [hnext, if_neg hpos]
      exact .repeated heq he hlt
    · have hlast : g.sequence.toNat + 1 = 2 ^ 12 := by omega
      have hzero : (g.sequence + 1) &&& sequenceMask = 0 := by
        rw [← UInt64.toNat_inj, hsucc, hlast]
        rfl
      dsimp only
      rw [hzero, if_pos rfl]
      exact .exhausted heq he hlast
  · rw [if_neg heq]
    refine .later (UInt64.lt_iff_toNat_lt.mpr ?_) he
    have hne : now.toNat ≠ g.last.toNat := fun hn => heq (UInt64.toNat_inj.mp hn)
    have hle' := UInt64.le_iff_toNat_le.mp hle
    omega

theorem exact_begin (h : g.Sound) (ht : now.toNat < epoch.toNat + 2 ^ 41) :
    Exact.begin g now = some (g.begin now) := by
  unfold Exact.begin begin
  by_cases href : now < g.last ∨ now < epoch
  · rw [if_pos href, if_pos href]
  rw [if_neg href, if_neg href]
  rw [not_or, UInt64.not_lt, UInt64.not_lt] at href
  have he : epoch.toNat ≤ now.toNat := UInt64.le_iff_toNat_le.mp href.2
  by_cases heq : now = g.last
  · have hs := h.sequence
    have hadd : add? g.sequence 1 = some (g.sequence + 1) := by
      refine if_pos ?_
      rw [show (1 : UInt64).toNat = 1 from rfl]
      omega
    have hsucc := toNat_succ_sequence h
    rw [if_pos heq, if_pos heq, hadd, Option.bind_some]
    generalize (g.sequence + 1) &&& sequenceMask = next at hsucc ⊢
    dsimp only
    split
    next => rfl
    next => exact exact_issue (h.withSequence (by omega)) he ht
  · rw [if_neg heq, if_neg heq]
    exact exact_issue (h.withSequence zero_lt_sequences) he ht

/-- The first reading of a call refuses, issues an id above the mark, or waits. -/
theorem begin_cases (h : g.Sound) (ht : now.toNat < epoch.toNat + 2 ^ 41) :
    (∃ last, g.begin now = .refused last now) ∨
    (∃ g' id, g.begin now = .issued g' id ∧ Issues g g' id) ∨
    ∃ w, g.begin now = .waiting w ∧ Waits g w := by
  generalize hc : g.begin now = c
  cases hc ▸ begins h now with
  | refused href => exact Or.inl ⟨_, rfl⟩
  | repeated heq he hs =>
    have hnext := toNat_add_one hs
    have hw : Sound { g with sequence := g.sequence + 1 } := h.withSequence (by omega)
    refine Or.inr (Or.inl ⟨_, _, rfl, ?_⟩)
    refine issues_issue h hw rfl rfl (UInt64.le_iff_toNat_le.mp he) ht (Or.inr ⟨?_, ?_⟩)
    · rw [heq]
    · show g.sequence.toNat < (g.sequence + 1).toNat
      omega
  | exhausted heq he hs =>
    have hw : Sound { g with sequence := 0 } := h.withSequence zero_lt_sequences
    exact Or.inr (Or.inr ⟨_, rfl, hw, rfl, rfl, rfl, heq ▸ UInt64.le_iff_toNat_le.mp he⟩)
  | later hlt he =>
    have hw : Sound { g with sequence := 0 } := h.withSequence zero_lt_sequences
    refine Or.inr (Or.inl ⟨_, _, rfl, ?_⟩)
    exact issues_issue h hw rfl rfl (UInt64.le_iff_toNat_le.mp he) ht
      (Or.inl (UInt64.lt_iff_toNat_lt.mp hlt))

theorem InEra.tail (h : InEra (now :: rs)) : InEra rs := fun t ht => h t (List.mem_cons_of_mem _ ht)

/-- A call that waits takes no later number, whatever the clock shows, and issues an id at the first
reading after the last one used. -/
theorem await?_cases (hg : g.Sound) (h : Waits g w) (hrs : InEra rs) :
    Exact.await w rs = some (w.await? rs) ∧
    (w.await? rs = none ∨
    ∃ g' id rest, w.await? rs = some (.ok id, g', rest) ∧ Issues g g' id ∧ InEra rest) := by
  induction rs with
  | nil => exact ⟨rfl, Or.inl rfl⟩
  | cons now rs ih =>
    have ht := hrs now List.mem_cons_self
    have hlast := h.last
    have hfrom := h.fromEpoch
    unfold Exact.await await? Exact.resume resume
    by_cases hlt : w.last < now
    · have hlater := UInt64.lt_iff_toNat_lt.mp hlt
      have he : epoch.toNat ≤ now.toNat := by omega
      rw [if_pos hlt, if_pos hlt, exact_issue h.sound he ht]
      refine ⟨rfl, Or.inr ⟨_, _, rs, rfl, ?_, hrs.tail⟩⟩
      exact issues_issue hg h.sound h.worker h.datacenter he ht (Or.inl (hlast ▸ hlater))
    · rw [if_neg hlt, if_neg hlt]
      exact ih hrs.tail

/-- **A call** is exact, and comes to no end, or is refused and leaves the generator as it is, or
issues an id above its mark. -/
theorem next?_cases (h : g.Sound) (hrs : InEra rs) :
    Exact.next g rs = some (g.next? rs) ∧
    (g.next? rs = none ∨
    (∃ e rest, g.next? rs = some (.error e, g, rest) ∧ InEra rest) ∨
    ∃ g' id rest, g.next? rs = some (.ok id, g', rest) ∧ Issues g g' id ∧ InEra rest) := by
  cases rs with
  | nil => exact ⟨rfl, Or.inl rfl⟩
  | cons now rs =>
    have ht := hrs now List.mem_cons_self
    simp only [Exact.next, next?, exact_begin h ht]
    rcases begin_cases h ht with ⟨last, hb⟩ | ⟨g', id, hb, hi⟩ | ⟨w, hb, hw⟩
    · rw [hb]
      exact ⟨rfl, Or.inr (Or.inl ⟨_, rs, rfl, hrs.tail⟩)⟩
    · rw [hb]
      exact ⟨rfl, Or.inr (Or.inr ⟨g', id, rs, rfl, hi, hrs.tail⟩)⟩
    · rw [hb]
      obtain ⟨hexact', hnone | hsome⟩ := await?_cases h hw hrs.tail
      · exact ⟨hexact', Or.inl hnone⟩
      · exact ⟨hexact', Or.inr (Or.inr hsome)⟩

theorem issues_of_next? {id : UInt64} (h : g.Sound) (hrs : InEra rs)
    (hn : g.next? rs = some (.ok id, g', rest)) : Issues g g' id := by
  obtain ⟨-, hnone | ⟨e, rest', he, -⟩ | ⟨g'', id', rest', hok, hi, -⟩⟩ := next?_cases h hrs
  · rw [hnone] at hn
    cases hn
  · rw [he] at hn
    cases hn
  · rw [hok] at hn
    cases hn
    exact hi

theorem eq_of_next?_error {e : GatewayError} (h : g.Sound) (hrs : InEra rs)
    (hn : g.next? rs = some (.error e, g', rest)) : g' = g := by
  obtain ⟨-, hnone | ⟨e', rest', he, -⟩ | ⟨g'', id', rest', hok, -⟩⟩ := next?_cases h hrs
  · rw [hnone] at hn
    cases hn
  · rw [he] at hn
    cases hn
    rfl
  · rw [hok] at hn
    cases hn

/-! ### Runs -/

theorem ids_cons_ok (id : UInt64) (os : List Outcome) : ids (.ok id :: os) = id :: ids os := rfl

theorem ids_cons_error (e : GatewayError) (os : List Outcome) : ids (.error e :: os) = ids os := rfl

/-- **The ids of a run** from a generator are above its mark, increase, and are computed exactly. -/
theorem run_increasing (h : g.Sound) (hrs : InEra rs) (n : Nat) :
    Exact.run g n rs = some (g.run n rs) ∧
    (ids (g.run n rs)).Pairwise (· < ·) ∧
    ∀ id ∈ ids (g.run n rs), g.mark < id.toNat + 2 ^ 22 * epoch.toNat ∧ id.toNat < 2 ^ 63 := by
  induction n generalizing g rs with
  | zero => exact ⟨rfl, .nil, by simp [run, ids]⟩
  | succ n ih =>
    unfold Exact.run run
    obtain ⟨hexact, hn | ⟨e, rest, hn, hrest⟩ | ⟨g', id, rest, hn, hi, hrest⟩⟩ := next?_cases h hrs
    · rw [hexact, hn]
      exact ⟨rfl, .nil, by simp [ids]⟩
    · rw [hexact, hn]
      obtain ⟨hrun, hids⟩ := ih h hrest
      refine ⟨by simp only [hrun, Option.map_some], ?_⟩
      simp only [ids_cons_error]
      exact hids
    · rw [hexact, hn]
      obtain ⟨hrun, hlt, hids⟩ := ih hi.sound hrest
      have habove := hi.above
      have hmark := hi.marked
      refine ⟨by simp only [hrun, Option.map_some], ?_⟩
      simp only [ids_cons_ok]
      refine ⟨List.pairwise_cons.mpr ⟨fun id' hid' => ?_, hlt⟩, fun id' hid' => ?_⟩
      · -- a later id is above the mark of `g'`, which is that of `id`
        have hlater := (hids id' hid').1
        rw [UInt64.lt_iff_toNat_lt]
        omega
      · rcases List.mem_cons.mp hid' with rfl | hid'
        · exact ⟨by omega, hi.small⟩
        · have hlater := hids id' hid'
          exact ⟨by omega, hlater.2⟩

theorem sound_of_create {worker datacenter : UInt64} (h : create worker datacenter = .ok g) :
    g.Sound := by
  unfold create at h
  split_ifs at h with hw hd
  have hmax : maxPlace.toNat = 31 := rfl
  rw [UInt64.lt_iff_toNat_lt] at hw hd
  obtain rfl := Except.ok.inj h
  exact ⟨show worker.toNat < 2 ^ 5 by omega, show datacenter.toNat < 2 ^ 5 by omega,
    zero_lt_sequences⟩

/-- **The ids of a generator increase**, whatever its clock shows: each is above all that were
issued before it and has its highest bit clear, calls that are refused in between issue nothing, and
no operation on the way loses anything. -/
theorem ids_increasing {worker datacenter : UInt64} (h : create worker datacenter = .ok g)
    (hrs : ∀ t ∈ rs, t.toNat < epoch.toNat + 2 ^ 41) (n : Nat) :
    (ids (g.run n rs)).Pairwise (· < ·) ∧ (∀ id ∈ ids (g.run n rs), id.toNat < 2 ^ 63) ∧
      Exact.run g n rs = some (g.run n rs) := by
  obtain ⟨hexact, hlt, hids⟩ := run_increasing (sound_of_create h) hrs n
  exact ⟨hlt, fun id hid => (hids id hid).2, hexact⟩

/-- The clock goes back between the calls, and the call that it refuses issues nothing. -/
theorem ids_increasing_rewind :
    let g : Generator := ⟨7, 3, 0, 0⟩
    let rs := [epoch + 5, epoch + 5, epoch + 4, epoch + 5, epoch + 7]
    (ids (g.run 5 rs)).length = 4 ∧ (ids (g.run 5 rs)).Pairwise (· < ·) ∧
      (∀ id ∈ ids (g.run 5 rs), id.toNat < 2 ^ 63) ∧ Exact.run g 5 rs = some (g.run 5 rs) := by
  intro g rs
  have hc : create 7 3 = .ok g := rfl
  have hrs : ∀ t ∈ rs, t.toNat < epoch.toNat + 2 ^ 41 := by
    simp only [rs, List.forall_mem_cons]
    exact ⟨by decide, by decide, by decide, by decide, by decide, List.forall_mem_nil _⟩
  exact ⟨by decide +kernel, ids_increasing hc hrs 5⟩

end EdgeGateway.RequestId.Generator

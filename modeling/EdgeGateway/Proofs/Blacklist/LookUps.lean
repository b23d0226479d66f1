import Mathlib.Data.List.Induction
import Mathlib.Tactic.SplitIfs
import EdgeGateway.Proofs.Blacklist.Canonical

/-! # Look-ups that overlap

Any number of look-ups take place at once, while others list addresses and take them off. A look-up
that has not found its address on the static list takes three more steps: it reads the entry, judges
it by the clock, and settles an expired one under the write lock. The clock moves on between any two
steps, and never back.

The answer of a look-up was right at some time while it was under way (`lookUps_linearizable`), and
a look-up takes no entry off the list that has not expired: an entry stays until it expires or
somebody replaces or removes it (`entry_kept`). A look-up without other steps in between is that of
the blacklist (`run_contains`). -/

namespace EdgeGateway.Blacklist

/-! ### One look-up -/

namespace Look

/-- A look-up takes off an entry only if it has seen that very one expired. -/
theorem get?_settle {l : Look} {d : Expiries} {k : String} {e now : UInt64} (ip : String)
    (h : d.get? k = some e) : (l.settle d ip now).2.get? k = some e ∨ l = .stale e := by
  match l with
  | .seen _ => exact Or.inl h
  | .done _ => exact Or.inl h
  | .stale e₀ =>
    rcases he : d.get? ip with _ | e'
    · simp only [Look.settle, he]
      exact Or.inl h
    · simp only [Look.settle, he]
      split_ifs with heq
      · by_cases hk : k = ip
        · rw [hk, he, Option.some.injEq] at h
          exact Or.inr (by rw [← h, heq])
        · left
          rw [KeyMap.get?_erase, if_neg hk, h]
      · exact Or.inl h

theorem settle_judge_begin (d : Expiries) (ip : String) (now : UInt64) :
    ((begin d ip).judge now).settle d ip now =
      (.done (lookUp d ip now id).1, (lookUp d ip now id).2) := by
  rw [lookUp_id]
  rcases he : d.get? ip with _ | e
  · simp [begin, he, judge, settle]
  · rcases hexp : isExpired e now
    · simp [begin, he, judge, hexp, settle]
    · simp [begin, he, judge, hexp, settle]

end Look

/-- Where a look-up is: it has found its address missing on the static list, it looks at the dynamic
one, or it has found the address on the static list. -/
inductive Stage
  | arrived
  | looking (l : Look)
  | static
  deriving DecidableEq, Inhabited

/-- A look-up; the address is the text under which it is kept. -/
structure Call where
  ip : String
  stage : Stage
  deriving DecidableEq, Inhabited

namespace Call

/-- The answer, once it is known. -/
def answer? (c : Call) : Option (Option Listed) :=
  match c.stage with
  | .looking (.done true) => some (some .dynamic)
  | .looking (.done false) => some none
  | .static => some (some .static)
  | _ => none

theorem stage_of_dynamic {c : Call} (h : c.answer? = some (some .dynamic)) :
    c.stage = .looking (.done true) := by
  unfold answer? at h
  split at h
  next hst => exact hst
  all_goals cases h

theorem stage_of_none {c : Call} (h : c.answer? = some none) :
    c.stage = .looking (.done false) := by
  unfold answer? at h
  split at h
  next => cases h
  next hst => exact hst
  all_goals cases h

/-- Looks at the static list. -/
def start (ips : AddressSet) (ip : String) : Call :=
  ⟨key ip, if ips.contains (key ip) then .static else .arrived⟩

theorem stage_start (ips : AddressSet) (ip : String) :
    (start ips ip).stage = .arrived ∨ (start ips ip).stage = .static := by
  unfold start
  cases ips.contains (key ip)
  · exact Or.inl rfl
  · exact Or.inr rfl

/-- Reads the entry. -/
def read (d : Expiries) (c : Call) : Call :=
  match c.stage with
  | .arrived => { c with stage := .looking (.begin d c.ip) }
  | _ => c

/-- Judges the entry by the clock. -/
def judge (now : UInt64) (c : Call) : Call :=
  match c.stage with
  | .looking l => { c with stage := .looking (l.judge now) }
  | _ => c

/-- Settles an expired entry. -/
def settle (d : Expiries) (now : UInt64) (c : Call) : Call × Expiries :=
  match c.stage with
  | .looking l => ({ c with stage := .looking (l.settle d c.ip now).1 }, (l.settle d c.ip now).2)
  | _ => (c, d)

theorem get?_settle {c : Call} {d : Expiries} {k : String} {e now : UInt64}
    (h : d.get? k = some e) :
    (c.settle d now).2.get? k = some e ∨ c.stage = .looking (.stale e) := by
  unfold Call.settle
  split
  next l hl =>
    rcases Look.get?_settle c.ip h with hkept | hstale
    · exact Or.inl hkept
    · exact Or.inr (by rw [hl, hstale])
  next => exact Or.inl h

/-- A look-up that takes its three steps in a row. -/
def finish (d : Expiries) (now : UInt64) (c : Call) : Call × Expiries :=
  ((c.read d).judge now).settle d now

theorem finish_static {ips : AddressSet} {ip : String} (h : ips.contains (key ip) = true)
    (d : Expiries) (now : UInt64) :
    (start ips ip).finish d now = (⟨key ip, .static⟩, d) := by
  rw [start, h]
  rfl

theorem finish_arrived {ips : AddressSet} {ip : String} (h : ips.contains (key ip) = false)
    (d : Expiries) (now : UInt64) : (start ips ip).finish d now =
      (⟨key ip, .looking (.done (lookUp d (key ip) now id).1)⟩,
        (lookUp d (key ip) now id).2) := by
  have hsettle := Look.settle_judge_begin d (key ip) now
  rw [start, h]
  show settle d now ⟨key ip, .looking ((Look.begin d (key ip)).judge now)⟩ = _
  simp only [settle, hsettle]

end Call

/-! ### Steps -/

/-- A blacklist, the clock by which entries expire, and the look-ups in the order of their
arrival. -/
structure LookUps where
  blacklist : Blacklist
  clock : UInt64
  calls : List Call
  deriving Inhabited

namespace LookUps

/-- A look-up arrives, when the other clock shows `refresh`, or takes a step; the clock moves on; or
the dynamic list is changed. An entry for a while may be written long after its clock was read. -/
inductive Action
  | arrive (ip : String) (refresh : UInt64)
  | read (i : Nat)
  | judge (i : Nat)
  | settle (i : Nat)
  | pass (now : UInt64)
  | add (ip : String) (expiry : UInt64)
  | addFor (ip : String) (now : UInt64) (d : Duration)
  | remove (ip : String)

/-- The dynamic list. -/
def dynamic (s : LookUps) : Expiries := s.blacklist.dynamic

/-- A look-up arrives and looks at the static list. -/
def arrive (s : LookUps) (ip : String) (refresh : UInt64) : LookUps :=
  let (ips, b) := s.blacklist.readFixed refresh
  { s with blacklist := b, calls := s.calls ++ [.start ips ip] }

/-- A look-up takes the write lock, looks once more and gives the lock back. While it has the lock
nothing but the clock can change, so that this is one step, at the second reading of the clock. -/
def settle (s : LookUps) (i : Nat) : LookUps :=
  match s.calls[i]? with
  | some c =>
    let r := c.settle s.dynamic s.clock
    { s with calls := s.calls.set i r.1, blacklist := { s.blacklist with dynamic := r.2 } }
  | none => s

/-- The clock moves on, and not back. -/
def pass (s : LookUps) (now : UInt64) : LookUps :=
  if s.clock ≤ now then { s with clock := now } else s

/-- One step. -/
def step (s : LookUps) : Action → LookUps
  | .arrive ip refresh => s.arrive ip refresh
  | .read i => { s with calls := s.calls.modify i (.read s.dynamic) }
  | .judge i => { s with calls := s.calls.modify i (.judge s.clock) }
  | .settle i => s.settle i
  | .pass now => s.pass now
  | .add ip expiry => { s with blacklist := s.blacklist.perform (.add ip expiry) }
  | .addFor ip now d => { s with blacklist := s.blacklist.perform (.addFor ip now d) }
  | .remove ip => { s with blacklist := s.blacklist.perform (.remove ip) }

/-- Steps in order. -/
def run (s : LookUps) (as : List Action) : LookUps := as.foldl step s

/-- The address has an entry that has not expired. -/
def Live (s : LookUps) (ip : String) : Prop :=
  ∃ e, s.dynamic.get? ip = some e ∧ (e = 0 ∨ s.clock < e)

/-- A look-up of the address has arrived and has no answer yet. -/
def UnderWay (s : LookUps) (i : Nat) (ip : String) : Prop :=
  ∃ c, s.calls[i]? = some c ∧ c.ip = ip ∧ c.answer? = none

variable {s : LookUps} {i : Nat}

theorem run_append (s : LookUps) (as : List Action) (a : Action) :
    s.run (as ++ [a]) = (s.run as).step a := List.foldl_append

/-! ### What one step does -/

theorem clock_settle (s : LookUps) (i : Nat) : (s.settle i).clock = s.clock := by
  unfold settle
  split <;> rfl

theorem clock_step (s : LookUps) (a : Action) : s.clock ≤ (s.step a).clock := by
  cases a with
  | settle i => exact UInt64.le_of_eq (s.clock_settle i).symm
  | pass now =>
    show s.clock ≤ (s.pass now).clock
    unfold pass
    split_ifs with h
    · exact h
    · exact UInt64.le_refl _
  | _ => exact UInt64.le_refl _

/-- What a look-up may do in one step: nothing, or the next of its three steps. -/
inductive Moves (s : LookUps) (c : Call) : Stage → Prop
  | stay : Moves s c c.stage
  | read (h : c.stage = .arrived) : Moves s c (.looking (.begin s.dynamic c.ip))
  | judge {l : Look} (h : c.stage = .looking l) : Moves s c (.looking (l.judge s.clock))
  | settle {l : Look} (h : c.stage = .looking l) :
    Moves s c (.looking (l.settle s.dynamic c.ip s.clock).1)

theorem moves_read (s : LookUps) (c : Call) :
    (c.read s.dynamic).ip = c.ip ∧ Moves s c (c.read s.dynamic).stage := by
  unfold Call.read
  split
  next h => exact ⟨rfl, .read h⟩
  next => exact ⟨rfl, .stay⟩

theorem moves_judge (s : LookUps) (c : Call) :
    (c.judge s.clock).ip = c.ip ∧ Moves s c (c.judge s.clock).stage := by
  unfold Call.judge
  split
  next h => exact ⟨rfl, .judge h⟩
  next => exact ⟨rfl, .stay⟩

theorem moves_settle (s : LookUps) (c : Call) :
    (c.settle s.dynamic s.clock).1.ip = c.ip ∧
      Moves s c (c.settle s.dynamic s.clock).1.stage := by
  unfold Call.settle
  split
  next h => exact ⟨rfl, .settle h⟩
  next => exact ⟨rfl, .stay⟩

theorem moves_modify {f : Call → Call} (hf : ∀ c, (f c).ip = c.ip ∧ Moves s c (f c).stage) {j : Nat}
    {c' : Call} (h : (s.calls.modify j f)[i]? = some c') :
    ∃ c, s.calls[i]? = some c ∧ c'.ip = c.ip ∧ Moves s c c'.stage := by
  rw [List.getElem?_modify] at h
  obtain ⟨c, hc, rfl⟩ := Option.map_eq_some_iff.mp h
  refine ⟨c, hc, ?_⟩
  split_ifs
  · exact hf c
  · exact ⟨rfl, .stay⟩

/-- **What one step does to the look-ups**: one may arrive, and one that is there may move. -/
theorem call_step {a : Action} {c' : Call} (h : (s.step a).calls[i]? = some c') :
    (c'.stage = .arrived ∨ c'.stage = .static) ∨
      ∃ c, s.calls[i]? = some c ∧ c'.ip = c.ip ∧ Moves s c c'.stage := by
  have hstay (h : s.calls[i]? = some c') :
      ∃ c, s.calls[i]? = some c ∧ c'.ip = c.ip ∧ Moves s c c'.stage := ⟨c', h, rfl, .stay⟩
  cases a with
  | arrive ip refresh =>
    replace h : (s.calls ++ [_])[i]? = some c' := h
    rw [List.getElem?_append] at h
    split_ifs at h with hi
    · exact Or.inr (hstay h)
    · left
      obtain rfl := List.mem_singleton.mp (List.mem_of_getElem? h)
      exact Call.stage_start _ ip
  | read j => exact Or.inr (moves_modify (moves_read s) h)
  | judge j => exact Or.inr (moves_modify (moves_judge s) h)
  | settle j =>
    replace h : (s.settle j).calls[i]? = some c' := h
    unfold settle at h
    split at h
    next c hc =>
      dsimp only at h
      rw [List.getElem?_set] at h
      split_ifs at h with hij hlt
      · subst hij
        cases h
        exact Or.inr ⟨c, hc, moves_settle s c⟩
      · exact Or.inr (hstay h)
    next => exact Or.inr (hstay h)
  | pass now =>
    replace h : (s.pass now).calls[i]? = some c' := h
    unfold pass at h
    split_ifs at h
    · exact Or.inr (hstay h)
    · exact Or.inr (hstay h)
  | add ip expiry => exact Or.inr (hstay h)
  | addFor ip now d => exact Or.inr (hstay h)
  | remove ip => exact Or.inr (hstay h)

/-! ### What a look-up goes by -/

/-- The property held at some time of the run. -/
def Sometime (s : LookUps) (as : List Action) (P : LookUps → Prop) : Prop :=
  ∃ before, before <+: as ∧ P (s.run before)

/-- **What a look-up goes by** after a run: the entry that it has seen was there at some time while
it was under way; one that it holds for expired has expired; and its answer was right at some time
while it was under way. -/
def Grounded (s : LookUps) (as : List Action) (i : Nat) (ip : String) : Stage → Prop
  | .looking (.seen e) => Sometime s as fun t => t.UnderWay i ip ∧ t.dynamic.get? ip = some e
  | .looking (.stale e) => e ≠ 0 ∧ e ≤ (s.run as).clock
  | .looking (.done true) => Sometime s as fun t => t.UnderWay i ip ∧ t.Live ip
  | .looking (.done false) => Sometime s as fun t => t.UnderWay i ip ∧ ¬ t.Live ip
  | .arrived | .static => True

variable {as : List Action} {ip : String}

theorem Sometime.now {P : LookUps → Prop} (h : P (s.run as)) : Sometime s as P :=
  ⟨as, List.prefix_rfl, h⟩

theorem Sometime.append {P : LookUps → Prop} (h : Sometime s as P) (bs : List Action) :
    Sometime s (as ++ bs) P := by
  obtain ⟨before, hb, hP⟩ := h
  exact ⟨before, hb.trans (List.prefix_append as bs), hP⟩

theorem Grounded.seen {e : UInt64}
    (h : Sometime s as fun t => t.UnderWay i ip ∧ t.dynamic.get? ip = some e) :
    Grounded s as i ip (.looking (.seen e)) := h

theorem Grounded.listed (h : Sometime s as fun t => t.UnderWay i ip ∧ t.Live ip) :
    Grounded s as i ip (.looking (.done true)) := h

theorem Grounded.unlisted (h : Sometime s as fun t => t.UnderWay i ip ∧ ¬ t.Live ip) :
    Grounded s as i ip (.looking (.done false)) := h

theorem clock_run (s : LookUps) (as : List Action) : s.clock ≤ (s.run as).clock := by
  induction as generalizing s with
  | nil => exact UInt64.le_refl _
  | cons a as ih => exact UInt64.le_trans (s.clock_step a) (ih (s.step a))

theorem clock_run_le {before : List Action} (h : before <+: as) :
    (s.run before).clock ≤ (s.run as).clock := by
  obtain ⟨bs, rfl⟩ := h
  have hrun : s.run (before ++ bs) = (s.run before).run bs := List.foldl_append
  rw [hrun]
  exact clock_run _ bs

theorem Grounded.append {a : Action} {stage : Stage} (h : Grounded s as i ip stage) :
    Grounded s (as ++ [a]) i ip stage := by
  unfold Grounded at h ⊢
  split at h
  next e => exact h.append [a]
  next e =>
    exact ⟨h.1, UInt64.le_trans h.2 (clock_run_le (List.prefix_append as [a]))⟩
  next => exact h.append [a]
  next => exact h.append [a]
  next => trivial
  next => trivial

theorem not_live_of_none {s : LookUps} (h : s.dynamic.get? ip = none) : ¬ s.Live ip := by
  rintro ⟨e, he, -⟩
  rw [h] at he
  cases he

theorem not_live_of_expired {s : LookUps} {e : UInt64} (h : s.dynamic.get? ip = some e)
    (he : isExpired e s.clock = true) : ¬ s.Live ip := by
  rintro ⟨e', he', hlive⟩
  rw [h, Option.some.injEq] at he'
  subst he'
  rw [← isExpired_eq_false_iff, he] at hlive
  cases hlive

theorem isExpired_eq_true_iff (expiry now : UInt64) :
    isExpired expiry now = true ↔ expiry ≠ 0 ∧ expiry ≤ now := by
  rw [← Bool.not_eq_false, isExpired_eq_false_iff, not_or, UInt64.not_lt]

section

variable {c : Call}

theorem underWay_of_stage (hc : s.calls[i]? = some c) (h : c.answer? = none) :
    s.UnderWay i c.ip := ⟨c, hc, rfl, h⟩

theorem Grounded.read (hc : (s.run as).calls[i]? = some c) (h : c.stage = .arrived) :
    Grounded s as i c.ip (.looking (.begin (s.run as).dynamic c.ip)) := by
  have hway := underWay_of_stage hc (by simp [Call.answer?, h])
  unfold Look.begin
  rcases he : (s.run as).dynamic.get? c.ip with _ | e
  · exact .unlisted (.now ⟨hway, not_live_of_none he⟩)
  · exact .seen (.now ⟨hway, he⟩)

theorem Grounded.judge {l : Look} (h : Grounded s as i ip (.looking l)) :
    Grounded s as i ip (.looking (l.judge (s.run as).clock)) := by
  match l with
  | .seen e =>
    rcases hexp : isExpired e (s.run as).clock
    · -- the entry has not expired by now, so it had not when it was seen
      obtain ⟨before, hb, hway, he⟩ := h
      have hle := clock_run_le (s := s) hb
      have hlive := ((isExpired_eq_false_iff e _).mp hexp).imp_right (UInt64.lt_of_le_of_lt hle)
      simp only [Look.judge, hexp]
      exact .listed ⟨before, hb, hway, e, he, hlive⟩
    · simp only [Look.judge, hexp]
      exact (isExpired_eq_true_iff e _).mp hexp
  | .stale e => exact h
  | .done b => exact h

theorem Grounded.settle {l : Look} (hc : (s.run as).calls[i]? = some c)
    (hl : c.stage = .looking l) (h : Grounded s as i c.ip (.looking l)) :
    Grounded s as i c.ip
      (.looking (l.settle (s.run as).dynamic c.ip (s.run as).clock).1) := by
  match l with
  | .seen e => exact h
  | .done b => exact h
  | .stale e =>
    have hway := underWay_of_stage hc (by simp [Call.answer?, hl])
    rcases he : (s.run as).dynamic.get? c.ip with _ | e'
    · simp only [Look.settle, he]
      exact .unlisted (.now ⟨hway, not_live_of_none he⟩)
    · simp only [Look.settle, he]
      split_ifs with heq
      · have hexp := (isExpired_eq_true_iff e _).mpr h
        exact .unlisted (.now ⟨hway, not_live_of_expired (heq ▸ he) hexp⟩)
      · rcases hexp : isExpired e' (s.run as).clock
        · exact .listed (.now ⟨hway, e', he, (isExpired_eq_false_iff e' _).mp hexp⟩)
        · exact .unlisted (.now ⟨hway, not_live_of_expired he hexp⟩)

/-- **One step of a look-up** keeps it grounded. -/
theorem Grounded.move {stage : Stage} (hc : (s.run as).calls[i]? = some c)
    (h : Grounded s as i c.ip c.stage) (hm : Moves (s.run as) c stage) :
    Grounded s as i c.ip stage := by
  cases hm with
  | stay => exact h
  | read hst => exact .read hc hst
  | judge hst => exact .judge (hst ▸ h)
  | settle hst => exact .settle hc hst (hst ▸ h)

end

/-- **Every look-up of a run is grounded.** -/
theorem grounded_run (hs : s.calls = []) {c : Call} (hc : (s.run as).calls[i]? = some c) :
    Grounded s as i c.ip c.stage := by
  induction as using List.reverseRecOn generalizing c with
  | nil =>
    have hnone : s.calls[i]? = some c := hc
    rw [hs] at hnone
    cases hnone
  | append_singleton as a ih =>
    rw [run_append] at hc
    rcases call_step hc with hst | ⟨c₀, hc₀, hip, hm⟩
    · rcases hst with hst | hst <;> rw [hst] <;> trivial
    · rw [hip]
      exact ((ih hc₀).move hc₀ hm).append

/-! ### What stays on the list -/

/-- The address whose entry the step writes or removes on purpose. -/
def Action.writes : Action → Option String
  | .add ip _ | .addFor ip _ _ | .remove ip => some (key ip)
  | _ => none

/-- **What one step does to an entry** of an address that it does not write: the entry stays, or a
look-up that has seen it expired takes it off. -/
theorem get?_step {a : Action} {k : String} {e : UInt64} (h : s.dynamic.get? k = some e)
    (ha : a.writes ≠ some k) : (s.step a).dynamic.get? k = some e ∨
      ∃ (i : Nat) (c : Call), s.calls[i]? = some c ∧ c.stage = .looking (.stale e) := by
  cases a with
  | arrive ip refresh =>
    obtain ⟨due, hread⟩ := s.blacklist.readFixed_eq refresh
    left
    show (s.blacklist.readFixed refresh).2.dynamic.get? k = _
    rw [hread]
    exact h
  | read j => exact Or.inl h
  | judge j => exact Or.inl h
  | settle j =>
    show (s.settle j).dynamic.get? k = _ ∨ _
    unfold LookUps.settle
    split
    next c hc => exact (Call.get?_settle h).imp_right fun hst => ⟨j, c, hc, hst⟩
    next => exact Or.inl h
  | pass now =>
    left
    show (s.pass now).dynamic.get? k = _
    unfold pass
    split_ifs <;> exact h
  | add ip expiry =>
    exact Or.inl ((get?_perform_add expiry fun hk => ha (congrArg some hk)).trans h)
  | addFor ip now d =>
    exact Or.inl ((get?_perform_add _ fun hk => ha (congrArg some hk)).trans h)
  | remove ip =>
    left
    show (s.dynamic.erase (key ip)).get? k = _
    rw [KeyMap.get?_erase, if_neg fun hk => ha (congrArg some hk.symm), h]

/-- **An entry stays** until it has expired, as long as nobody writes or removes it. -/
theorem entry_kept (hs : s.calls = []) (as : List Action) {bs : List Action} {k : String}
    {e : UInt64} (h : (s.run as).dynamic.get? k = some e) (hbs : ∀ b ∈ bs, b.writes ≠ some k)
    (he : e = 0 ∨ (s.run (as ++ bs)).clock < e) : (s.run (as ++ bs)).dynamic.get? k = some e := by
  induction bs using List.reverseRecOn with
  | nil => rwa [List.append_nil]
  | append_singleton bs b ih =>
    rw [← List.append_assoc, run_append] at he ⊢
    have hle := clock_step (s.run (as ++ bs)) b
    have he' := he.imp_right (UInt64.lt_of_le_of_lt hle)
    have hb := ih (fun b hb => hbs b (List.mem_append_left _ hb)) he'
    rcases get?_step hb (hbs b (by simp)) with hkept | ⟨i, c, hc, hst⟩
    · exact hkept
    · obtain ⟨hne, hexp⟩ := hst ▸ grounded_run hs hc
      rcases he' with rfl | hlt
      · exact absurd rfl hne
      · exact absurd hexp (UInt64.not_le.mpr hlt)

/-! ### Overlapping look-ups -/

/-- **Overlapping look-ups are as good as look-ups one after the other.** Whatever is done to the
dynamic list in between, an address was on it at some time while the look-up was under way that
answers so, and was not at some time while the look-up was under way that answers otherwise. And no
look-up takes an entry off that has not expired: what was written stays until it expires, unless it
is written or removed again. -/
theorem lookUps_linearizable (hs : s.calls = []) (as : List Action) :
    (∀ i c, (s.run as).calls[i]? = some c → c.answer? = some (some .dynamic) →
      Sometime s as fun t => t.UnderWay i c.ip ∧ t.Live c.ip) ∧
    (∀ i c, (s.run as).calls[i]? = some c → c.answer? = some none →
      Sometime s as fun t => t.UnderWay i c.ip ∧ ¬ t.Live c.ip) ∧
    ∀ before bs k e, as = before ++ bs → (s.run before).dynamic.get? k = some e →
      (∀ b ∈ bs, b.writes ≠ some k) → (e = 0 ∨ (s.run as).clock < e) →
      (s.run as).dynamic.get? k = some e := by
  refine ⟨fun i c hc ha => ?_, fun i c hc ha => ?_, ?_⟩
  · have hg := grounded_run hs hc
    rw [Call.stage_of_dynamic ha] at hg
    exact hg
  · have hg := grounded_run hs hc
    rw [Call.stage_of_none ha] at hg
    exact hg
  · rintro before bs k e rfl h hbs he
    exact entry_kept hs before h hbs he

/-- An entry is extended when a look-up has seen it expired and not yet looked once more: the
look-up finds the address listed, and a second one does not take the new entry off. -/
theorem lookUps_linearizable_extended :
    let s : LookUps := ⟨.empty, 150, []⟩
    let ip := "10.0.0.1"
    let before : List Action := [.add ip 100, .arrive ip 0, .read 0, .judge 0, .add ip 300]
    let after : List Action := [.arrive ip 0, .settle 0, .read 1, .pass 299, .judge 1, .settle 1]
    let t := s.run (before ++ after)
    (∃ c, t.calls[0]? = some c ∧ c.answer? = some (some .dynamic) ∧
      Sometime s (before ++ after) fun t => t.UnderWay 0 c.ip ∧ t.Live c.ip) ∧
    t.dynamic.get? ip = some 300 := by
  intro s ip before after t
  have h := lookUps_linearizable (s := s) rfl (before ++ after)
  have hcall : t.calls[0]? = some ⟨ip, .looking (.done true)⟩ := by decide +kernel
  exact ⟨⟨_, hcall, rfl, h.1 0 _ hcall rfl⟩,
    h.2.2 before after ip 300 rfl (by decide +kernel) (by decide +kernel) (by decide +kernel)⟩

/-! ### Undisturbed steps are the look-up of the blacklist -/

theorem modify_concat {α : Type} (l : List α) (a : α) (f : α → α) :
    (l ++ [a]).modify l.length f = l ++ [f a] := by
  induction l with
  | nil => rfl
  | cons b l ih => simpa using ih

/-- The same with one more look-up. -/
def withCall (s : LookUps) (c : Call) : LookUps := { s with calls := s.calls ++ [c] }

theorem run_withCall (s : LookUps) (c : Call) :
    let i := s.calls.length
    let r := c.finish s.dynamic s.clock
    (s.withCall c).run [.read i, .judge i, .settle i] =
      withCall { s with blacklist := { s.blacklist with dynamic := r.2 } } r.1 := by
  intro i r
  have hread : (s.withCall c).step (.read i) = s.withCall (c.read s.dynamic) := by
    simp only [step, withCall, i, modify_concat]
    rfl
  have hjudge (c : Call) : (s.withCall c).step (.judge i) = s.withCall (c.judge s.clock) := by
    simp only [step, withCall, i, modify_concat]
  show (((s.withCall c).step (.read i)).step (.judge i)).settle i = _
  rw [hread, hjudge]
  simp only [settle, withCall, i, List.getElem?_concat_length,
    List.set_append_right _ _ (Nat.le_refl _), Nat.sub_self]
  rfl

/-- **A look-up without other steps in between** is that of the blacklist. -/
theorem run_contains (s : LookUps) (ip : String) (refresh : UInt64) :
    let i := s.calls.length
    let t := s.run [.arrive ip refresh, .read i, .judge i, .settle i]
    let r := s.blacklist.contains ip ⟨s.clock, refresh⟩
    t.blacklist = r.2 ∧ t.calls[i]?.bind Call.answer? = some r.1 := by
  intro i t r
  obtain ⟨due, hread⟩ := s.blacklist.readFixed_eq refresh
  let ips := s.blacklist.currentFixed refresh
  let s' : LookUps := { s with blacklist := { s.blacklist with fixed := ⟨ips, due⟩ } }
  let looked := (Call.start ips ip).finish s'.dynamic s'.clock
  have harrive : s.step (.arrive ip refresh) = s'.withCall (.start ips ip) := by
    simp only [step, arrive, hread]
    rfl
  have hrun : t = withCall { s' with blacklist := { s'.blacklist with dynamic := looked.2 } }
      looked.1 := by
    rw [← run_withCall s', ← harrive]
    rfl
  have hlast : t.calls[i]? = some looked.1 := by
    rw [hrun]
    exact List.getElem?_concat_length
  have hblacklist : t.blacklist = { s'.blacklist with dynamic := looked.2 } := by
    rw [hrun]
    rfl
  rw [hlast, hblacklist]
  simp only [r, contains, containsDuring, hread]
  rcases hfixed : ips.contains (key ip)
  · have hlooked : looked = (⟨key ip, .looking (.done _)⟩, _) :=
      Call.finish_arrived hfixed s'.dynamic s'.clock
    rw [hlooked]
    refine ⟨rfl, ?_⟩
    show Call.answer? ⟨key ip, .looking (.done (lookUp s.dynamic (key ip) s.clock id).1)⟩ =
      some (if (lookUp s.dynamic (key ip) s.clock id).1 then some .dynamic else none)
    cases (lookUp s.dynamic (key ip) s.clock id).1 <;> rfl
  · have hlooked : looked = (⟨key ip, .static⟩, _) :=
      Call.finish_static hfixed s'.dynamic s'.clock
    rw [hlooked]
    exact ⟨rfl, rfl⟩

end LookUps
end EdgeGateway.Blacklist

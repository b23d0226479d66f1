import Mathlib.Algebra.Group.Nat.Defs
import EdgeGateway.Proofs.Refresh.History

/-! # One load in each window

While nobody invalidates the cell and every load ends with something stored, the value is due a
window after the reading at which the last load began (`Paced`). So the reading at which the next
load begins lies a window later, however many readers find the value due at the same time
(`once_per_window`). -/

namespace EdgeGateway.Refresh.History

universe u v

variable {ε : Type v} {α : Type u} {h h' : History ε α} {window : Duration}

/-- The reading from which on a value is due that was loaded at a reading. -/
def dueAfter (window : Duration) (reading : UInt64) : Nat :=
  min (reading.toNat + window.millis) (2 ^ 64 - 1)

/-- The cell is due a window after the last load began, and so was it when each load began. -/
structure Paced (window : Duration) (h : History ε α) : Prop where
  tallied : Tallied h
  window_eq : h.present.window = window
  seen : ∀ i mode seen, h.At i (.lookingAgain mode seen) → seen = h.present.cell
  due : ∀ l ls, h.loads = l :: ls → l.ended.isSome →
    h.present.cell.due.toNat = dueAfter window l.reading
  paced : h.loads.Pairwise fun later earlier =>
    dueAfter window earlier.reading ≤ later.reading.toNat

theorem due_stored (hw : window.millis < 2 ^ 64) (a : α) (now : UInt64) :
    (Cell.stored window a now).due.toNat = dueAfter window now := by
  have hmod : window.millis % UInt64.size = window.millis := Nat.mod_eq_of_lt hw
  have hdue := toNat_saturatingAdd_millis now window
  rw [hmod] at hdue
  exact hdue

theorem le_dueAfter (window : Duration) (reading : UInt64) :
    reading.toNat ≤ dueAfter window reading := by
  have hlt := reading.toNat_lt
  unfold dueAfter
  omega

/-- An action that begins and ends no load. -/
theorem Paced.keep (hp : Paced window h) {a : Action ε α} (hm : h.Moves a h')
    (hw : h'.present.window = h.present.window) (hc : h'.present.cell = h.present.cell)
    (hl : h'.loads = h.loads) : Paced window h' where
  tallied := hp.tallied.moves hm
  window_eq := hw.trans hp.window_eq
  seen i mode seen hi := by
    rw [hc]
    cases hm.came hi with
    | stay hi => exact hp.seen i mode seen hi
    | lookAgain hi => rfl
  due l ls hls he := by
    rw [hc]
    exact hp.due l ls (hl.symm.trans hls) he
  paced := hl ▸ hp.paced

/-- A load begins no earlier than the value is due, and so later than all loads before it. -/
theorem Paced.le_reading (hp : Paced window h) (hn : ¬ h.Loads) {now : UInt64}
    (hnow : h.present.cell.due ≤ now) {l : Loading} (hl : l ∈ h.loads) :
    dueAfter window l.reading ≤ now.toNat := by
  have hpaced := hp.paced
  match hls : h.loads with
  | [] =>
    rw [hls] at hl
    cases hl
  | last :: ls =>
    obtain ⟨e, he, -⟩ := hp.tallied.ended hn last (hls ▸ List.mem_cons_self)
    have hdue := hp.due last ls hls (he ▸ rfl)
    rw [UInt64.le_iff_toNat_le, hdue] at hnow
    rw [hls] at hpaced hl
    rcases List.mem_cons.mp hl with rfl | hl
    · exact hnow
    · calc dueAfter window l.reading ≤ last.reading.toNat := (List.pairwise_cons.mp hpaced).1 l hl
        _ ≤ dueAfter window last.reading := le_dueAfter window last.reading
        _ ≤ now.toNat := hnow

theorem Paced.moves (hp : Paced window h) (hw : window.millis < 2 ^ 64) {a : Action ε α}
    (hm : h.Moves a h') (ha : a ≠ .invalidate) (hr : ∀ l ∈ h'.loads, ¬ l.Refused) :
    Paced window h' := by
  have ht := hp.tallied.moves hm
  have hm' := hm
  cases hm with
  | @begin i now mode seen hq hi hnow =>
    have hn := hp.tallied.not_loads hq hi
    have hdue : h.present.cell.due ≤ now := by
      rw [← hp.seen i mode seen hi]
      exact UInt64.not_lt.mp hnow
    refine ⟨ht, hp.window_eq, fun j mode' seen' hj => ?_, fun l ls hls he => ?_, ?_⟩
    · rcases getElem?_move hj with ⟨-, heq⟩ | ⟨-, hj⟩
      · cases heq
      · exact hp.seen j mode' seen' hj
    · obtain ⟨rfl, -⟩ := List.cons.inj hls
      cases he
    · exact List.pairwise_cons.mpr ⟨fun l hl => hp.le_reading hn hdue hl, hp.paced⟩
  | @settle i now mode old result hq hi =>
    obtain ⟨l, ls, hls, hmode, hreading, -⟩ := hp.tallied.underWay i mode now old hi
    have hpaced := hp.paced
    rw [hls, List.modifyHead_cons] at hr ht ⊢
    rw [hls] at hpaced
    refine ⟨ht, hp.window_eq, fun j mode' seen' hj => ?_, fun l' ls' hls' he => ?_, ?_⟩
    · exact absurd trivial (hp.tallied.not_holds_of_finish hq hj)
    · obtain ⟨rfl, -⟩ := List.cons.inj hls'
      show (h.present.cell.settle mode h.present.window now old (result.map h.date)).2.due.toNat =
        dueAfter window l.reading
      rw [hp.window_eq, hreading]
      rcases Cell.settle_cases mode window now old (result.map h.date) h.present.cell with
        ⟨e, rfl, hres, -⟩ | ⟨v, hset, -⟩
      · exact absurd ⟨hmode, failed_close hres⟩ (hr _ List.mem_cons_self)
      · rw [hset]
        exact due_stored hw v now
    · exact List.pairwise_cons.mpr (List.pairwise_cons.mp hpaced)
  | invalidate => exact absurd rfl ha
  | _ => exact hp.keep hm' rfl rfl rfl

theorem paced_start (window : Duration) (cell : Cell α) :
    Paced window (start window cell : History ε α) where
  tallied := tallied_start window cell
  window_eq := rfl
  seen i mode seen hi := by cases hi
  due l ls hls := by cases hls
  paced := .nil

theorem Paced.run (hp : Paced window h) (hw : window.millis < 2 ^ 64) {as : List (Action ε α)}
    (ha : Action.invalidate ∉ as) (hr : ∀ l ∈ (h.run as).loads, ¬ l.Refused) :
    Paced window (h.run as) := by
  induction as generalizing h with
  | nil => exact hp
  | cons a as ih =>
    rw [List.mem_cons, not_or] at ha
    obtain ⟨hne, ha⟩ := ha
    refine ih (hp.moves hw (h.step_moves a) (Ne.symm hne) fun l hl hl' => ?_) ha hr
    -- a refused load has ended, so the run keeps it in its record
    have he : l.ended.isSome := Option.isSome_of_any hl'.2
    exact hr l ((hp.tallied.step a).mem_loads_run hl he as) hl'

/-- **One load in each window.** Unless the cell is invalidated or a reader fails with its load,
each load begins after the end of those before it, at a reading that is a window later than theirs;
at most one reader loads at a time; and the lock's holder serves a value that is not due without a
load of its own. -/
theorem once_per_window (hw : window.millis < 2 ^ 64) (cell : Cell α) {as : List (Action ε α)}
    (ha : Action.invalidate ∉ as)
    (hr : ∀ l ∈ ((start window cell : History ε α).run as).loads, ¬ l.Refused) :
    let h := (start window cell : History ε α).run as
    h.present.map Dated.value = (Readers.quiet window cell).run as ∧
    (h.loads.Pairwise fun later earlier => earlier.EndedBefore later.began ∧
      min (earlier.reading.toNat + window.millis) (2 ^ 64 - 1) ≤ later.reading.toNat) ∧
    (∀ i j r r', h.At i r → h.At j r' → r.IsLoading → r'.IsLoading → i = j) ∧
    ∀ i mode seen now, h.present.holder? = some (i, .lookingAgain mode seen) →
      now < h.present.cell.due →
      (h.step (.judgeAgain now)).At i (.done (.ok h.present.cell.value)) ∧
        (h.step (.judgeAgain now)).loads = h.loads := by
  intro h
  have hp : Paced window h := (paced_start window cell).run hw ha hr
  refine ⟨forget_run _ as, hp.tallied.apart.and hp.paced, fun i j r r' hi hj hri hrj => ?_,
    fun i mode seen now hh hnow => ?_⟩
  · have hs := hp.tallied.sole i r hi hri.holds
    exact (hp.tallied.eq_of_holds hs hj hrj.holds).symm
  · obtain ⟨hq, hi⟩ := holder?_eq_some hh
    obtain rfl := hp.seen i mode seen hi
    have hstep : h.step (.judgeAgain now) =
        h.next (h.present.finish i (.ok h.present.cell.value)) h.loads := by
      simp only [step, Action.map, Readers.step, record, hh, Cell.fresh?, if_pos hnow]
      rfl
    rw [hstep]
    exact ⟨List.getElem?_set_self (List.getElem?_eq_some_iff.mp hi).1, rfl⟩

/-- Two readers find the value due and the second is served by the load of the first; a window later
a load fails and its reader keeps the value. -/
theorem once_per_window_race :
    let as : List (Action String Nat) := [.arrive .failing, .arrive .serveStale, .judge 1 5,
      .judge 0 5, .lookAgain, .judgeAgain 5, .loaded (.ok 8), .lookAgain, .judgeAgain 6,
      .arrive .serveStale, .judge 2 15, .lookAgain, .judgeAgain 15, .loaded (.error "gone")]
    let h : History String Nat := (start (.ofMillis 10) (.initial 0)).run as
    (Duration.ofMillis 10).millis < 2 ^ 64 ∧ Action.invalidate ∉ as ∧ (∀ l ∈ h.loads, ¬ l.Refused) ∧
      h.loads.map Loading.reading = [15, 5] ∧
      h.loads.Pairwise fun later earlier => earlier.EndedBefore later.began ∧
        min (earlier.reading.toNat + (Duration.ofMillis 10).millis) (2 ^ 64 - 1) ≤
          later.reading.toNat := by
  intro as h
  have hw : (Duration.ofMillis 10).millis < 2 ^ 64 := by decide
  have ha : Action.invalidate ∉ as := by simp [as]
  have hr : ∀ l ∈ h.loads, ¬ l.Refused := by decide +kernel
  exact ⟨hw, ha, hr, by decide +kernel, (once_per_window hw (.initial 0) ha hr).2.1⟩

end EdgeGateway.Refresh.History

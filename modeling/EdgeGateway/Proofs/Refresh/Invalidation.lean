import Mathlib.Data.List.Basic
import EdgeGateway.Blacklist.Basic
import EdgeGateway.Proofs.Refresh.History

/-! # What an invalidation achieves

A reader that comes after an invalidation is served a value whose load began after it, or one that a
later load, which failed, has kept (`invalidation_kept`). This holds of every invalidation that no
load runs across which stores something in the end; a load that does makes the cell fresh again with
what it found before (`reload_overtaken`). -/

namespace EdgeGateway.Refresh

universe u v

/-! ### A reader by itself -/

/-- **A read that no other reader overlaps** is the run of its reader. -/
theorem Readers.run_read {ε : Type v} {α : Type u} (mode : Mode) (window : Duration) (now : UInt64)
    (loaded : Except ε α) (cell : Cell α) :
    (quiet window cell).run
        [.arrive mode, .judge 0 now, .lookAgain, .judgeAgain now, .loaded loaded] =
      ⟨window, (cell.read mode window now loaded).2, [.done (cell.read mode window now loaded).1],
        []⟩ := by
  unfold Cell.read
  cases hf : cell.fresh? now with
  | some a => simp [run, step, quiet, move, holder?, hf]
  | none => simp [run, step, quiet, move, finish, holder?, hf]

/-- A reload of the blacklist is an invalidation of its static list and then such a read. -/
theorem exists_run_reload (b : Blacklist) (now : UInt64) : ∃ r,
    (Readers.quiet b.window b.fixed).run [.invalidate, .arrive .failing, .judge 0 now, .lookAgain,
        .judgeAgain now, .loaded b.source.load] =
      ⟨b.window, (b.reload now).2.fixed, [.done r], []⟩ ∧
    (b.reload now).1 = r.map KeyMap.size :=
  ⟨_, Readers.run_read .failing b.window now b.source.load b.fixed.invalidate, rfl⟩

namespace History

/-! ### After an invalidation -/

variable {ε : Type v} {α : Type u} {h h' : History ε α} {k n : Nat}

/-- The load of the value began after an action, or a later load has failed and kept it. -/
def Newer (h : History ε α) (k : Nat) (v : Dated α) : Prop :=
  k < v.since ∨ ∃ l ∈ h.loads, l.KeptStale ∧ k < l.began

/-- After the action `k` the readers from the place `n` on are served values that are newer than it,
and the cell is due unless it holds one. -/
structure Renewed (k n : Nat) (h : History ε α) : Prop where
  tallied : Tallied h
  later : k < h.steps
  cell : h.present.cell.due = 0 ∨ h.Newer k h.present.cell.value
  seen : ∀ i mode seen, n ≤ i → h.At i (.looking mode seen) ∨ h.At i (.lookingAgain mode seen) →
    seen.due = 0 ∨ h.Newer k seen.value
  loading : ∀ i mode now old, n ≤ i → h.At i (.loading mode now old) →
    ∀ l ∈ h.loads.head?, k < l.began
  served : ∀ i v, n ≤ i → h.At i (.done (.ok v)) → h.Newer k v

theorem Newer.moves {a : Action ε α} {v : Dated α} (hv : h.Newer k v) (ht : Tallied h)
    (hm : h.Moves a h') : h'.Newer k v := by
  rcases hv with hv | ⟨l, hl, hs, hk⟩
  · exact Or.inl hv
  · exact Or.inr ⟨l, ht.mem_loads hm hl (Option.isSome_of_any hs.2), hs, hk⟩

/-- The last load of the record is the one that was last before, or has just begun. -/
theorem Moves.head_began {a : Action ε α} (hm : h.Moves a h') {l : Loading}
    (hl : l ∈ h'.loads.head?) :
    l.began = h.steps ∨ ∃ l' ∈ h.loads.head?, l'.began = l.began := by
  cases hm with
  | begin =>
    cases hl
    exact Or.inl rfl
  | settle =>
    rw [show History.loads _ = h.loads.modifyHead _ from rfl, List.head?_modifyHead] at hl
    obtain ⟨l', hl', rfl⟩ := Option.map_eq_some_iff.mp hl
    exact Or.inr ⟨l', hl', rfl⟩
  | _ => exact Or.inr ⟨l, hl, rfl⟩

section

variable {i : Nat} {mode : Mode} {now : UInt64} {old v : Dated α} {result : Except ε α}

/-- The answer of a load that began after the action. -/
theorem Tallied.newer_of_settle (ht : Tallied h) (hi : h.At i (.loading mode now old))
    (hl : h'.loads = h.loads.modifyHead (.close h.steps result.isOk))
    (hk : ∀ l ∈ h.loads.head?, k < l.began)
    (hv : (h.present.cell.settle mode h.present.window now old (result.map h.date)).1 = .ok v) :
    h'.Newer k v := by
  obtain ⟨l, ls, hls, hmode, -, -⟩ := ht.underWay i mode now old hi
  have hlater : k < l.began := hk l (hls ▸ rfl)
  rcases Cell.settle_cases mode h.present.window now old (result.map h.date) h.present.cell with
    ⟨e, -, -, hset⟩ | ⟨a, hset, hres⟩
  · rw [hset] at hv
    cases hv
  · rw [hset] at hv
    cases hv
    rcases hres with hres | ⟨hstale, -, hres⟩
    · -- a loaded value has the date of the load
      refine Or.inl ?_
      cases result with
      | ok a =>
        cases hres
        rw [date, hls]
        exact hlater
      | error e => cases hres
    · refine Or.inr ⟨l.close h.steps result.isOk, ?_, ⟨hmode.trans hstale, ?_⟩, hlater⟩
      · rw [hl, hls]
        exact List.mem_cons_self
      · cases result with
        | ok a => cases hres
        | error e => rfl

/-- A load that stores something and does not run across the action began after it. -/
theorem Tallied.began_of_settle (ht : Tallied h) (hlater : k < h.steps)
    (hi : h.At i (.loading mode now old))
    (hl : h'.loads = h.loads.modifyHead (.close h.steps result.isOk))
    (hno : ∀ l ∈ h'.loads, ¬ l.StoredAcross k)
    (hv : (h.present.cell.settle mode h.present.window now old (result.map h.date)).1 = .ok v) :
    ∀ l ∈ h.loads.head?, k < l.began := by
  obtain ⟨l, ls, hls, hmode, -, -⟩ := ht.underWay i mode now old hi
  rw [hls]
  rintro l' ⟨⟩
  refine (Nat.lt_or_ge k l.began).resolve_right fun hk => ?_
  refine hno (l.close h.steps result.isOk) ?_ ⟨hk, ?_, decide_eq_true hlater⟩
  · rw [hl, hls]
    exact List.mem_cons_self
  · rintro ⟨hfailing, hfailed⟩
    rcases Cell.settle_cases mode h.present.window now old (result.map h.date) h.present.cell with
      ⟨e, -, -, hset⟩ | ⟨a, -, hres | ⟨hstale, -⟩⟩
    · rw [hset] at hv
      cases hv
    · cases result with
      | ok a => cases hfailed
      | error e => cases hres
    · cases hstale.symm.trans (hmode.symm.trans hfailing)

end

theorem Renewed.moves (hr : Renewed k n h) {a : Action ε α} (hm : h.Moves a h')
    (hno : ∀ l ∈ h'.loads, ¬ l.StoredAcross k) : Renewed k n h' := by
  have hcell (c : Cell (Dated α)) (hc : c.due = 0 ∨ h.Newer k c.value) :
      c.due = 0 ∨ h'.Newer k c.value := hc.imp_right fun hv => hv.moves hr.tallied hm
  have hsteps : h'.steps = h.steps + 1 := by cases hm <;> rfl
  refine ⟨hr.tallied.moves hm, ?_, ?_, fun i mode seen hn hi => ?_,
    fun i mode now old hn hi l hl => ?_, fun i v hn hi => ?_⟩
  · rw [hsteps]
    exact Nat.lt_succ_of_lt hr.later
  · have hm' := hm
    cases hm with
    | @settle i now mode old result hq hi =>
      rcases Cell.settle_cases mode h.present.window now old (result.map h.date) h.present.cell with
        ⟨e, -, -, hset⟩ | ⟨v, hset, -⟩
      · show Cell.due (Cell.settle _ _ _ _ _ _).2 = 0 ∨
          Newer _ _ (Cell.value (Cell.settle _ _ _ _ _ _).2)
        rw [hset]
        exact hcell _ hr.cell
      · have hv := congrArg Prod.fst hset
        have hk := hr.tallied.began_of_settle hr.later hi rfl hno hv
        refine Or.inr ?_
        show Newer _ _ (Cell.value (Cell.settle _ _ _ _ _ _).2)
        rw [hset]
        exact hr.tallied.newer_of_settle hi rfl hk hv
    | invalidate => exact Or.inl rfl
    | _ => exact hcell _ hr.cell
  · rcases hi with hi | hi
    · cases hm.came hi with
      | stay hi => exact hcell seen (hr.seen i mode seen hn (Or.inl hi))
      | arrive => exact hcell _ hr.cell
    · cases hm.came hi with
      | stay hi => exact hcell seen (hr.seen i mode seen hn (Or.inr hi))
      | lookAgain => exact hcell _ hr.cell
  · cases hm.came hi with
    | stay hi =>
      rcases hm.head_began hl with hb | ⟨l', hl', hb⟩
      · exact hb ▸ hr.later
      · exact hb ▸ hr.loading i mode now old hn hi l' hl'
    | begin hi hnow hls =>
      rw [hls] at hl
      cases hl
      exact hr.later
  · cases hm.came hi with
    | stay hi => exact (hr.served i v hn hi).moves hr.tallied hm
    | @serve mode now seen hs hnow =>
      have hdue : seen.due ≠ 0 := by
        intro hz
        rw [hz] at hnow
        exact UInt64.not_lt_zero hnow
      have hseen := (hr.seen i mode seen hn hs).resolve_left hdue
      exact hseen.moves hr.tallied hm
    | settle hi hl ha =>
      exact hr.tallied.newer_of_settle hi hl (hr.loading i _ _ _ hn hi) ha

theorem Renewed.run (hr : Renewed k n h) {as : List (Action ε α)}
    (hno : ∀ l ∈ (h.run as).loads, ¬ l.StoredAcross k) : Renewed k n (h.run as) := by
  induction as generalizing h with
  | nil => exact hr
  | cons a as ih =>
    refine ih (hr.moves (h.step_moves a) fun l hl hl' => ?_) hno
    -- a load that stored something has ended, so the run keeps it in its record
    have he : l.ended.isSome := Option.isSome_of_any hl'.2.2
    exact hno l ((hr.tallied.step a).mem_loads_run hl he as) hl'

/-- The invalidation leaves the cell due, and nobody has come since. -/
theorem Tallied.renewed (ht : Tallied h) :
    Renewed h.steps h.present.readers.length (h.step .invalidate) where
  tallied := ht.step .invalidate
  later := Nat.lt_succ_self _
  cell := Or.inl rfl
  seen i mode seen hn hi := by
    rcases hi with hi | hi <;> exact absurd (List.getElem?_eq_some_iff.mp hi).1 (Nat.not_lt.mpr hn)
  loading i mode now old hn hi :=
    absurd (List.getElem?_eq_some_iff.mp hi).1 (Nat.not_lt.mpr hn)
  served i v hn hi := absurd (List.getElem?_eq_some_iff.mp hi).1 (Nat.not_lt.mpr hn)

/-- **An invalidation is kept** unless a load runs across it that stores something in the end: every
reader that comes later is served a value whose load began after the invalidation, or the old value
that a load has kept which began after it and failed. -/
theorem invalidation_kept (window : Duration) (cell : Cell α) (as bs : List (Action ε α)) :
    let before := (start window cell : History ε α).run as
    let h := before.run (.invalidate :: bs)
    (∀ l ∈ h.loads, ¬ l.StoredAcross as.length) →
    h.present.map Dated.value = (Readers.quiet window cell).run (as ++ .invalidate :: bs) ∧
    ∀ i v, before.present.readers.length ≤ i → h.At i (.done (.ok v)) →
      as.length < v.since ∨ ∃ l ∈ h.loads, l.KeptStale ∧ as.length < l.began := by
  intro before h hno
  have ht : Tallied before := (tallied_start window cell).run as
  have hsteps : before.steps = as.length := (steps_run _ as).trans (Nat.zero_add _)
  have hr := ht.renewed
  rw [hsteps] at hr
  refine ⟨?_, (hr.run hno).served⟩
  have hrun : h = (start window cell).run (as ++ .invalidate :: bs) :=
    (List.foldl_append ..).symm
  rw [hrun]
  exact forget_run _ _

/-- A load runs across the invalidation and fails with its reader; the next one begins after it. -/
theorem invalidation_kept_refused :
    let as : List (Action String Nat) := [.arrive .failing, .judge 0 0, .lookAgain, .judgeAgain 0]
    let bs : List (Action String Nat) := [.arrive .failing, .judge 1 3, .loaded (.error "gone"),
      .lookAgain, .judgeAgain 3, .loaded (.ok 8)]
    let before := (start (.ofMillis 10) (.initial 0) : History String Nat).run as
    let h := before.run (.invalidate :: bs)
    (∀ l ∈ h.loads, ¬ l.StoredAcross as.length) ∧ before.present.readers.length ≤ 1 ∧
      h.At 1 (.done (.ok ⟨8, 9⟩)) ∧
      (as.length < 9 ∨ ∃ l ∈ h.loads, l.KeptStale ∧ as.length < l.began) := by
  intro as bs before h
  have hno : ∀ l ∈ h.loads, ¬ l.StoredAcross as.length := by decide +kernel
  have hn : before.present.readers.length ≤ 1 := by decide +kernel
  have hi : h.At 1 (.done (.ok ⟨8, 9⟩)) := by cbv
  exact ⟨hno, hn, hi, (invalidation_kept (.ofMillis 10) (.initial 0) as bs hno).2 1 ⟨8, 9⟩ hn hi⟩

/-- A reload that begins while a look-up loads the list is answered with the list that the look-up
found: its load, which stores the list in the end, began before the reload. -/
theorem reload_overtaken :
    let old : Blacklist.AddressSet := .ofList ["192.0.2.1"]
    let as : List (Action Blacklist.Failure Blacklist.AddressSet) :=
      [.arrive .serveStale, .judge 0 0, .lookAgain, .judgeAgain 0]
    let bs : List (Action Blacklist.Failure Blacklist.AddressSet) :=
      [.arrive .failing, .judge 1 0, .loaded (.ok old), .lookAgain, .judgeAgain 0]
    let before := (start (.ofMillis 60000) (.initial .empty) : History _ _).run as
    let h := before.run (.invalidate :: bs)
    before.present.readers.length ≤ 1 ∧ h.At 1 (.done (.ok ⟨old, 3⟩)) ∧
      ¬ (as.length < 3 ∨ ∃ l ∈ h.loads, l.KeptStale ∧ as.length < l.began) :=
  ⟨by decide +kernel, rfl, by decide +kernel⟩

end History
end EdgeGateway.Refresh

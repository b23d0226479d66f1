import Mathlib.Data.List.Induction
import EdgeGateway.Proofs.Refresh.SingleFlight

/-! # What a read returns

Reads overlap, loads fail, and the cell is invalidated in between. Still the cell behaves like a
register that only the loads write which succeed (`reads_linearizable`):

* its value is at every moment the one that the last of these loads brought;
* a read returns what the cell held at an instant between its beginning and its end;
* a read that fails does so by its own load, and leaves the cell as it is;
* a read that serves stale values does not fail, and when its load does, it keeps the value for a
  window.

A value that is written back was captured before the load began. It is still the value of the cell,
because nobody else stores anything until the load has ended (`Steady`). -/

namespace EdgeGateway.Refresh

universe u v

variable {ε : Type v} {α : Type u}

deriving instance DecidableEq for Reader

namespace Readers

/-! ### What the cell goes through -/

/-- The value that an action brings: that of a load which succeeds. -/
def brings? (s : Readers ε α) : Action ε α → Option α
  | .loaded (.ok a) =>
    match s.holder? with
    | some (_, .loading ..) => some a
    | _ => none
  | _ => none

/-- The values that the loads of a run bring, in the order in which these end. -/
def brought (s : Readers ε α) : List (Action ε α) → List α
  | [] => []
  | a :: as => (s.brings? a).toList ++ (s.step a).brought as

/-- The reader that takes an action. -/
def actor? (s : Readers ε α) : Action ε α → Option Nat
  | .arrive _ => some s.readers.length
  | .judge i _ => some i
  | .lookAgain | .judgeAgain _ | .loaded _ => s.holder?.map Prod.fst
  | .invalidate => none

theorem run_concat (s : Readers ε α) (as : List (Action ε α)) (a : Action ε α) :
    s.run (as ++ [a]) = (s.run as).step a := List.foldl_append

theorem brought_append (s : Readers ε α) (as bs : List (Action ε α)) :
    s.brought (as ++ bs) = s.brought as ++ (s.run as).brought bs := by
  induction as generalizing s with
  | nil => rfl
  | cons a as ih => exact (congrArg _ (ih (s.step a))).trans (List.append_assoc ..).symm

/-- **All that an action does to the cell.** -/
theorem step_cell_cases (s : Readers ε α) (a : Action ε α) :
    (s.brings? a = none ∧ (s.step a).cell = s.cell) ∨
    (a = .invalidate ∧ (s.step a).cell = s.cell.invalidate) ∨
    ∃ i mode now old result, a = .loaded result ∧ s.holder? = some (i, .loading mode now old) ∧
      s.step a = { s with cell := (s.cell.settle mode s.window now old result).2 }.finish i
        (s.cell.settle mode s.window now old result).1 := by
  cases a with
  | arrive mode => exact Or.inl ⟨rfl, rfl⟩
  | judge i now =>
    refine Or.inl ⟨rfl, ?_⟩
    simp only [step]
    split
    · split <;> rfl
    · rfl
  | lookAgain =>
    refine Or.inl ⟨rfl, ?_⟩
    simp only [step]
    split <;> rfl
  | judgeAgain now =>
    refine Or.inl ⟨rfl, ?_⟩
    simp only [step]
    split
    · split <;> rfl
    · rfl
  | loaded result =>
    rcases hr : s.holder? with _ | ⟨i, r⟩
    · refine Or.inl ⟨?_, ?_⟩
      · cases result <;> simp only [brings?, hr]
      · simp only [step, hr]
    · cases r with
      | loading mode now old =>
        refine Or.inr (Or.inr ⟨i, mode, now, old, result, rfl, rfl, ?_⟩)
        simp only [step, hr]
      | _ =>
        refine Or.inl ⟨?_, ?_⟩
        · cases result <;> simp only [brings?, hr]
        · simp only [step, hr]
  | invalidate => exact Or.inr (Or.inl ⟨rfl, rfl⟩)

theorem window_step (s : Readers ε α) (a : Action ε α) : (s.step a).window = s.window := by
  unfold step
  split
  next => rfl
  next => split <;> [split <;> rfl; rfl]
  next => split <;> rfl
  next => split <;> [split <;> rfl; rfl]
  next => split <;> rfl
  next => rfl

theorem window_run (s : Readers ε α) (as : List (Action ε α)) : (s.run as).window = s.window := by
  induction as generalizing s with
  | nil => rfl
  | cons a as ih => exact (ih (s.step a)).trans (s.window_step a)

/-! ### What has happened in a run -/

/-- An action was taken that had a property in the state before it. -/
def Took (s : Readers ε α) (as : List (Action ε α))
    (P : Readers ε α → Action ε α → Prop) : Prop :=
  ∃ before a, before ++ [a] <+: as ∧ P (s.run before) a

/-- A reader came, in a mode. -/
def Arrived (s : Readers ε α) (as : List (Action ε α)) (i : Nat) (mode : Mode) : Prop :=
  s.Took as fun t a => a = .arrive mode ∧ t.readers.length = i

/-- Something was so at an instant of a read: the reader had come, and was not done before. -/
def During (s : Readers ε α) (as : List (Action ε α)) (i : Nat) (P : Readers ε α → Prop) : Prop :=
  ∃ before, before <+: as ∧ i < (s.run before).readers.length ∧ P (s.run before) ∧
    ∀ earlier, earlier <+: before → earlier ≠ before →
      ∀ r, (s.run earlier).readers[i]? ≠ some (.done r)

variable {s : Readers ε α} {as : List (Action ε α)} {a : Action ε α} {i : Nat}

theorem Took.now {P : Readers ε α → Action ε α → Prop} (h : P (s.run as) a) :
    s.Took (as ++ [a]) P := ⟨as, a, List.prefix_rfl, h⟩

theorem Took.append {P : Readers ε α → Action ε α → Prop} (h : s.Took as P)
    (bs : List (Action ε α)) : s.Took (as ++ bs) P := by
  obtain ⟨before, a, hb, hP⟩ := h
  exact ⟨before, a, hb.trans (List.prefix_append as bs), hP⟩

theorem During.append {P : Readers ε α → Prop} (h : s.During as i P) (bs : List (Action ε α)) :
    s.During (as ++ bs) i P := by
  obtain ⟨before, hb, hP⟩ := h
  exact ⟨before, hb.trans (List.prefix_append as bs), hP⟩

/-- What has happened to a reader, by where it is: it came in its mode, what it has seen was held by
the cell since then, and it has judged the cell by a reading before it loads. A reader that has
failed came as one that does, and its own load has failed. -/
def Told (s : Readers ε α) (as : List (Action ε α)) (i : Nat) : Reader ε α → Prop
  | .looking mode seen => s.Arrived as i mode ∧ s.During as i fun t => t.cell.value = seen.value
  | .queued mode => s.Arrived as i mode
  | .lookingAgain mode seen =>
    s.Arrived as i mode ∧ s.During as i fun t => t.cell.value = seen.value
  | .loading mode now _ => s.Arrived as i mode ∧
    s.Took as fun t a => a = .judgeAgain now ∧ ∃ seen, t.holder? = some (i, .lookingAgain mode seen)
  | .done (.ok v) => s.During as i fun t => t.cell.value = v
  | .done (.error e) => s.Arrived as i .failing ∧
    s.Took as fun t a => a = .loaded (.error e) ∧
      ∃ now old, t.holder? = some (i, .loading .failing now old)

theorem Told.append {r : Reader ε α} (h : s.Told as i r) (bs : List (Action ε α)) :
    s.Told (as ++ bs) i r := by
  unfold Told at h ⊢
  split at h
  next => exact ⟨h.1.append bs, h.2.append bs⟩
  next => exact h.append bs
  next => exact ⟨h.1.append bs, h.2.append bs⟩
  next => exact ⟨h.1.append bs, h.2.append bs⟩
  next => exact h.append bs
  next => exact ⟨h.1.append bs, h.2.append bs⟩

end Readers

namespace History

variable {h h' : History ε α} {a : Action ε α} {i : Nat}

/-! ### Nobody overtakes a load -/

/-- What the lock's holder has seen of the value, and what it will write back, is the value of the
cell. -/
structure Steady (h : History ε α) : Prop where
  tallied : Tallied h
  seen : ∀ i mode seen, h.At i (.lookingAgain mode seen) → seen.value = h.present.cell.value
  old : ∀ i mode now old, h.At i (.loading mode now old) → old = h.present.cell.value

/-- The value stays while somebody holds the lock. -/
theorem Tallied.value_eq (ht : Tallied h) (hm : h.Moves a h') {r : Reader ε (Dated α)}
    (hi : h'.At i r) (hr : r.Holds) : h'.present.cell.value = h.present.cell.value := by
  cases hm with
  | settle hq hl => exact absurd hr (ht.not_holds_of_finish hq hi)
  | _ => rfl

theorem Steady.moves (hs : Steady h) (hm : h.Moves a h') : Steady h' where
  tallied := hs.tallied.moves hm
  seen i mode seen hi := by
    rw [hs.tallied.value_eq hm hi trivial]
    cases hm.came hi with
    | stay hi => exact hs.seen i mode seen hi
    | lookAgain hi => rfl
  old i mode now old hi := by
    rw [hs.tallied.value_eq hm hi trivial]
    cases hm.came hi with
    | stay hi => exact hs.old i mode now old hi
    | begin hb hnow hl => exact hs.seen i mode _ hb

theorem Steady.run (hs : Steady h) (as : List (Action ε α)) : Steady (h.run as) := by
  induction as generalizing h with
  | nil => exact hs
  | cons a as ih => exact ih (hs.moves (h.step_moves a))

theorem steady_start (window : Duration) (cell : Cell α) :
    Steady (start window cell : History ε α) where
  tallied := tallied_start window cell
  seen i mode seen hi := by cases hi
  old i mode now old hi := by cases hi

/-! ### Readers come and stay -/

theorem run_concat (h : History ε α) (as : List (Action ε α)) (a : Action ε α) :
    h.run (as ++ [a]) = (h.run as).step a := List.foldl_append

theorem Moves.length_readers (hm : h.Moves a h') :
    h.present.readers.length ≤ h'.present.readers.length := by
  cases hm with
  | arrive mode => exact (List.length_append ▸ Nat.le_add_right _ _)
  | idle => exact Nat.le_refl _
  | invalidate => exact Nat.le_refl _
  | _ => exact Nat.le_of_eq List.length_set.symm

/-- A reader that is done is not moved by others. -/
theorem done_move {s : Readers ε α} {j : Nat} {r r₀ : Reader ε α} {x : Except ε α}
    (hj : s.readers[j]? = some r₀) (h₀ : r₀ ≠ .done x) (hi : s.readers[i]? = some (.done x)) :
    (s.move j r).readers[i]? = some (.done x) := by
  have hne : j ≠ i := by
    rintro rfl
    exact h₀ (Option.some.inj (hj.symm.trans hi))
  rw [Readers.move, List.getElem?_set_ne hne]
  exact hi

theorem Moves.done (hm : h.Moves a h') {x : Except ε (Dated α)} (hi : h.At i (.done x)) :
    h'.At i (.done x) := by
  cases hm with
  | idle => exact hi
  | arrive mode => exact (List.getElem?_append_left (List.getElem?_eq_some_iff.mp hi).1).trans hi
  | serve hj hnow => exact done_move hj nofun hi
  | join hj hnow => exact done_move hj nofun hi
  | lookAgain hq hj => exact done_move hj nofun hi
  | serveAgain hq hj hnow => exact done_move hj nofun hi
  | begin hq hj hnow => exact done_move hj nofun hi
  | settle hq hj => exact done_move hj nofun hi
  | invalidate => exact hi

/-! ### The run without the record -/

section

variable (window : Duration) (cell : Cell α) (as : List (Action ε α))

theorem present_run :
    ((start window cell : History ε α).run as).present.map Dated.value =
      (Readers.quiet window cell).run as := forget_run _ as

theorem value_run : ((Readers.quiet window cell : Readers ε α).run as).cell.value =
    ((start window cell : History ε α).run as).present.cell.value.value := by
  rw [← present_run]
  rfl

theorem getElem?_readers_run : ((Readers.quiet window cell : Readers ε α).run as).readers[i]? =
    (((start window cell : History ε α).run as).present.readers[i]?).map
      (Reader.map Dated.value) := by
  rw [← present_run]
  exact List.getElem?_map

theorem length_readers_run : ((Readers.quiet window cell : Readers ε α).run as).readers.length =
    ((start window cell : History ε α).run as).present.readers.length := by
  rw [← present_run]
  exact List.length_map _

theorem holder?_run : ((Readers.quiet window cell : Readers ε α).run as).holder? =
    ((start window cell : History ε α).run as).present.holder?.map
      fun p => (p.1, p.2.map Dated.value) := by
  rw [← present_run]
  exact Readers.holder?_map _ _

end

end History

namespace Readers

open History

variable {window : Duration} {cell : Cell α} {as : List (Action ε α)} {a : Action ε α} {i : Nat}

theorem length_readers_le (window : Duration) (cell : Cell α) {before : List (Action ε α)}
    (hb : before <+: as) :
    ((quiet window cell : Readers ε α).run before).readers.length ≤
      ((quiet window cell : Readers ε α).run as).readers.length := by
  obtain ⟨bs, rfl⟩ := hb
  induction bs using List.reverseRecOn with
  | nil => simp
  | append_singleton bs b ih =>
    refine Nat.le_trans ih ?_
    rw [← List.append_assoc, length_readers_run, length_readers_run, History.run_concat]
    exact (step_moves _ b).length_readers

theorem done_of_prefix {before : List (Action ε α)} (hb : before <+: as) {x : Except ε α}
    (hi : ((quiet window cell).run before).readers[i]? = some (.done x)) :
    ((quiet window cell).run as).readers[i]? = some (.done x) := by
  obtain ⟨bs, rfl⟩ := hb
  induction bs using List.reverseRecOn with
  | nil => rwa [List.append_nil]
  | append_singleton bs b ih =>
    rw [← List.append_assoc]
    rw [getElem?_readers_run, Option.map_eq_some_iff] at ih ⊢
    obtain ⟨r, hr, hx⟩ := ih
    refine ⟨r, ?_, hx⟩
    cases r with
    | done y =>
      rw [History.run_concat]
      exact (step_moves _ b).done hr
    | _ => cases hx

theorem at_move {s : Readers ε α} {r r₀ : Reader ε α} (hi : s.readers[i]? = some r₀) :
    (s.move i r).readers[i]? = some r :=
  List.getElem?_set_self (List.getElem?_eq_some_iff.mp hi).1

theorem holder?_of_at {r : Reader ε (Dated α)}
    (hq : ((start window cell : History ε α).run as).present.queue.head? = some i)
    (hi : ((start window cell : History ε α).run as).At i r) :
    ((quiet window cell).run as).holder? = some (i, r.map Dated.value) := by
  obtain ⟨q, hq⟩ := List.head?_eq_some_iff.mp hq
  rw [holder?_run, holder?, hq]
  simp only [show _ = some r from hi, Option.map_some]

/-- A reader that an action has moved is told of, and so is every other one. -/
theorem told_of_move {s : Readers ε (Dated α)} {j : Nat} {r r' : Reader ε (Dated α)}
    (hs : s.readers = ((start window cell : History ε α).run as).present.readers)
    (hold : ∀ i r, ((start window cell : History ε α).run as).At i r →
      (quiet window cell).Told as i (r.map Dated.value))
    (hj : (s.move i r).readers[j]? = some r')
    (hr : (quiet window cell).Told (as ++ [a]) i (r.map Dated.value)) :
    (quiet window cell).Told (as ++ [a]) j (r'.map Dated.value) := by
  rcases getElem?_move hj with ⟨rfl, rfl⟩ | ⟨-, hj⟩
  · exact hr
  · rw [hs] at hj
    exact (hold j r' hj).append [a]

/-- A reader that is under way has seen what the cell holds after the action. -/
theorem During.next {v : Dated α} {r : Reader ε (Dated α)}
    (hi : ((start window cell : History ε α).run (as ++ [a])).At i r)
    (hv : ((start window cell : History ε α).run (as ++ [a])).present.cell.value = v)
    (hn : ∀ x, ¬ ((start window cell : History ε α).run as).At i (.done x)) :
    (quiet window cell : Readers ε α).During (as ++ [a]) i fun t => t.cell.value = v.value := by
  refine ⟨as ++ [a], List.prefix_rfl, ?_, ?_, fun earlier he hne x hx => ?_⟩
  · rw [length_readers_run]
    exact (List.getElem?_eq_some_iff.mp hi).1
  · exact (value_run window cell _).trans (congrArg Dated.value hv)
  · have hprefix : earlier <+: as := (List.prefix_concat_iff.mp he).resolve_left hne
    have hdone := done_of_prefix hprefix hx
    rw [getElem?_readers_run, Option.map_eq_some_iff] at hdone
    obtain ⟨r, hr, hx⟩ := hdone
    cases r with
    | done y => exact hn y hr
    | _ => cases hx

/-- **What has happened to a reader** fits where it is, in every run. -/
theorem told_run (as : List (Action ε α)) {i : Nat} {r : Reader ε (Dated α)}
    (hi : ((start window cell : History ε α).run as).At i r) :
    (quiet window cell).Told as i (r.map Dated.value) := by
  induction as using List.reverseRecOn generalizing i r with
  | nil => cases hi
  | append_singleton as a ih =>
    have hold (i : Nat) (r : Reader ε (Dated α))
        (hi : ((start window cell : History ε α).run as).At i r) :
        (quiet window cell).Told as i (r.map Dated.value) := ih hi
    have hm := ((start window cell : History ε α).run as).step_moves a
    have hnext := @During.next ε α window cell as a
    rw [History.run_concat] at hi hnext
    generalize ((start window cell : History ε α).run as).step a = h' at hm hi hnext
    cases hm with
    | idle => exact (hold i r hi).append [a]
    | invalidate => exact (hold i r hi).append _
    | arrive mode =>
      rcases getElem?_append hi with ⟨rfl, rfl⟩ | hi'
      · refine ⟨Took.now ⟨rfl, length_readers_run window cell as⟩, hnext hi rfl fun x hx => ?_⟩
        exact Nat.lt_irrefl _ (List.getElem?_eq_some_iff.mp hx).1
      · exact (hold i r hi').append _
    | serve hj hnow => exact told_of_move rfl hold hi ((hold _ _ hj).append _).2
    | join hj hnow => exact told_of_move rfl hold hi ((hold _ _ hj).append _).1
    | lookAgain hq hj =>
      refine told_of_move rfl hold hi ⟨(hold _ _ hj).append _, ?_⟩
      exact hnext (at_move hj) rfl fun x hx => by cases hx.symm.trans hj
    | serveAgain hq hj hnow => exact told_of_move rfl hold hi ((hold _ _ hj).append _).2
    | begin hq hj hnow =>
      refine told_of_move rfl hold hi ⟨((hold _ _ hj).append _).1, ?_⟩
      exact Took.now ⟨rfl, _, holder?_of_at hq hj⟩
    | @settle i now mode old result hq hj =>
      refine told_of_move rfl hold hi ?_
      have hn (x) : ¬ ((start window cell : History ε α).run as).At i (.done x) :=
        fun hx => by cases hx.symm.trans hj
      rcases Cell.settle_cases mode ((start window cell : History ε α).run as).present.window now
          old (result.map ((start window cell : History ε α).run as).date)
          ((start window cell : History ε α).run as).present.cell with
        ⟨e, rfl, hres, hset⟩ | ⟨v, hset, -⟩
      · rw [hset]
        cases result with
        | ok b => cases hres
        | error e' =>
          cases hres
          exact ⟨((hold _ _ hj).append _).1, Took.now ⟨rfl, _, _, holder?_of_at hq hj⟩⟩
      · rw [hset]
        exact hnext (at_move hj) (congrArg (fun p => p.2.value) hset) hn

/-- What has happened to a reader of a run without a record. -/
theorem told {r : Reader ε α} (hi : ((quiet window cell).run as).readers[i]? = some r) :
    (quiet window cell).Told as i r := by
  rw [getElem?_readers_run, Option.map_eq_some_iff] at hi
  obtain ⟨r', hi, rfl⟩ := hi
  exact told_run as hi

/-- **What is written back** after a failed load is still the value. -/
theorem old_eq_value {mode : Mode} {now : UInt64} {old : α}
    (hh : ((quiet window cell : Readers ε α).run as).holder? = some (i, .loading mode now old)) :
    old = ((quiet window cell : Readers ε α).run as).cell.value := by
  obtain ⟨-, hi⟩ := holder?_eq_some hh
  rw [getElem?_readers_run, Option.map_eq_some_iff] at hi
  obtain ⟨r, hi, hr⟩ := hi
  cases r with
  | loading mode' now' old' =>
    cases hr
    have hold := ((steady_start window cell).run as).old i mode now old' hi
    rw [value_run, hold]
  | _ => cases hr

theorem value_concat (as : List (Action ε α)) (a : Action ε α) :
    ((quiet window cell).run (as ++ [a])).cell.value =
      (((quiet window cell).run as).brings? a).getD ((quiet window cell).run as).cell.value := by
  rw [run_concat]
  rcases step_cell_cases ((quiet window cell).run as) a with
    ⟨hb, hc⟩ | ⟨rfl, hc⟩ | ⟨i, mode, now, old, result, rfl, hh, hs⟩
  · rw [hb, hc]
    rfl
  · rw [hc]
    rfl
  · rw [hs]
    cases result with
    | ok b =>
      simp only [brings?, hh]
      rfl
    | error e =>
      cases mode with
      | failing => rfl
      | serveStale => exact old_eq_value hh

/-- **The value is that of the last load** that brought one. -/
theorem value_eq_getLast? (as : List (Action ε α)) :
    ((quiet window cell).run as).cell.value =
      (((quiet window cell).brought as).getLast?).getD cell.value := by
  induction as using List.reverseRecOn with
  | nil => rfl
  | append_singleton as a ih =>
    have hb : (quiet window cell).brought (as ++ [a]) =
        (quiet window cell).brought as ++ (((quiet window cell).run as).brings? a).toList := by
      simp [brought_append, brought]
    rw [value_concat, hb, ih]
    cases ((quiet window cell).run as).brings? a with
    | none => simp
    | some b => simp

theorem mode_eq_of_arrived {m m' : Mode} (h : (quiet window cell).Arrived as i m)
    (h' : (quiet window cell).Arrived as i m') : m = m' := by
  obtain ⟨b, _, hb, rfl, hi⟩ := h
  obtain ⟨b', _, hb', rfl, hi'⟩ := h'
  -- the list of readers is longer after the arrival
  have hlater {c c' : List (Action ε α)} {m m' : Mode}
      (hc : ((quiet window cell).run c).readers.length = i)
      (hc' : ((quiet window cell).run c').readers.length = i)
      (hp : c ++ [.arrive m] <+: c' ++ [.arrive m']) : m = m' := by
    rcases List.prefix_concat_iff.mp hp with heq | hp
    · obtain ⟨-, heq⟩ := List.append_inj' heq rfl
      cases heq
      rfl
    · have hle := length_readers_le window cell hp
      rw [run_concat] at hle
      simp only [step, List.length_append, List.length_singleton] at hle
      omega
  rcases List.prefix_or_prefix_of_prefix hb hb' with hp | hp
  · exact hlater hi hi' hp
  · exact (hlater hi' hi hp).symm

/-- A reader that fails has not touched the cell. -/
theorem cell_kept {e : ε} (hi : ((quiet window cell).run as).readers[i]? = some (.done (.error e)))
    {before : List (Action ε α)} {a : Action ε α} (hb : before ++ [a] <+: as)
    (ha : ((quiet window cell : Readers ε α).run before).actor? a = some i) :
    (((quiet window cell : Readers ε α).run before).step a).cell =
      ((quiet window cell).run before).cell := by
  rcases step_cell_cases ((quiet window cell).run before) a with
    ⟨-, hc⟩ | ⟨rfl, -⟩ | ⟨j, mode, now, old, result, rfl, hh, hs⟩
  · exact hc
  · cases ha
  · have hj : j = i := by simpa [actor?, hh] using ha
    subst hj
    rw [hs]
    rcases Cell.settle_cases mode ((quiet window cell).run before).window now old result
        ((quiet window cell).run before).cell with ⟨e', -, -, hset⟩ | ⟨v, hset, -⟩
    · rw [hset]
      rfl
    · -- it would have been served the value that it stored
      have hdone : ((quiet window cell).run (before ++ [.loaded result])).readers[j]? =
          some (.done (.ok v)) := by
        rw [run_concat, hs, hset]
        exact at_move (holder?_eq_some hh).2
      have hv := done_of_prefix hb hdone
      rw [hi] at hv
      cases hv

/-- **Reads are linearizable.** However reads with loads and invalidations overlap, the value of the
cell is that of the last load that brought one, and each read returns the value that the cell held
at an instant of the read. A read that fails was meant to, its own load has failed, and none of its
actions has changed the cell. A read that serves stale values never fails; a load of its own that
fails keeps the value for a window from the reading by which the read has judged it due. -/
theorem reads_linearizable (window : Duration) (cell : Cell α) (as : List (Action ε α)) :
    let start : Readers ε α := .quiet window cell
    let s := start.run as
    s.cell.value = (start.brought as).getLast?.getD cell.value ∧
    (∀ i v, s.readers[i]? = some (.done (.ok v)) → start.During as i fun t => t.cell.value = v) ∧
    (∀ i e, s.readers[i]? = some (.done (.error e)) →
      start.Arrived as i .failing ∧
      (start.Took as fun t a => a = .loaded (.error e) ∧
        ∃ now old, t.holder? = some (i, .loading .failing now old)) ∧
      ∀ before a, before ++ [a] <+: as → (start.run before).actor? a = some i →
        ((start.run before).step a).cell = (start.run before).cell) ∧
    (∀ i, start.Arrived as i .serveStale → ∀ e, s.readers[i]? ≠ some (.done (.error e))) ∧
    ∀ i now old e, s.holder? = some (i, .loading .serveStale now old) →
      (start.Took as fun t a => a = .judgeAgain now ∧
        ∃ seen, t.holder? = some (i, .lookingAgain .serveStale seen)) ∧
      let s' := s.step (.loaded (.error e))
      s'.readers[i]? = some (.done (.ok s.cell.value)) ∧ s'.cell.value = s.cell.value ∧
      (window.millis < 2 ^ 64 →
        s'.cell.due.toNat = min (now.toNat + window.millis) (2 ^ 64 - 1)) := by
  intro start s
  refine ⟨value_eq_getLast? as, fun i v hi => told hi, fun i e hi => ?_, fun i ha e hi => ?_,
    fun i now old e hh => ?_⟩
  · have htold := told hi
    exact ⟨htold.1, htold.2, fun before a hb ha => cell_kept hi hb ha⟩
  · cases mode_eq_of_arrived (told hi).1 ha
  · obtain ⟨-, hi⟩ := holder?_eq_some hh
    obtain rfl : old = s.cell.value := old_eq_value hh
    have hs : s.step (.loaded (.error e)) =
        { s with cell := .stored s.window s.cell.value now }.finish i (.ok s.cell.value) := by
      simp only [step, hh, Cell.settle]
    refine ⟨(told hi).2, ?_⟩
    simp only [hs]
    refine ⟨at_move hi, rfl, fun hw => ?_⟩
    rw [window_run start as]
    exact due_stored hw s.cell.value now

/-- A read loads a value; after its window one read fails and the next one is to keep the value,
with an invalidation in between. -/
theorem reads_linearizable_overlap :
    let start : Readers String Nat := .quiet (.ofMillis 10) (.initial 0)
    let as : List (Action String Nat) := [.arrive .failing, .judge 0 0, .lookAgain, .judgeAgain 0,
      .loaded (.ok 7), .arrive .failing, .arrive .serveStale, .judge 1 12, .judge 2 12, .lookAgain,
      .judgeAgain 12, .invalidate, .loaded (.error "gone"), .lookAgain, .judgeAgain 13]
    let s := start.run as
    s.readers[0]? = some (.done (.ok 7)) ∧ start.During as 0 (fun t => t.cell.value = 7) ∧
    s.readers[1]? = some (.done (.error "gone")) ∧ start.Arrived as 1 .failing ∧
    s.holder? = some (2, .loading .serveStale 13 7) ∧
    (s.step (.loaded (.error "down"))).cell.value = 7 ∧
    (s.step (.loaded (.error "down"))).cell.due.toNat = 23 := by
  intro start as s
  obtain ⟨-, hserved, hfailed, -, hstale⟩ := reads_linearizable (.ofMillis 10) (.initial 0) as
  have h₀ : s.readers[0]? = some (.done (.ok 7)) := by decide +kernel
  have h₁ : s.readers[1]? = some (.done (.error "gone")) := by decide +kernel
  have h₂ : s.holder? = some (2, .loading .serveStale 13 7) := by decide +kernel
  obtain ⟨-, -, hvalue, hdue⟩ := hstale 2 13 7 "down" h₂
  have hs : (quiet (.ofMillis 10) (.initial 0)).run as = s := rfl
  rw [hs] at hvalue hdue
  have hmin : min ((13 : UInt64).toNat + (Duration.ofMillis 10).millis) (2 ^ 64 - 1) = 23 := by
    decide
  have hseven : s.cell.value = 7 := by decide +kernel
  exact ⟨h₀, hserved 0 7 h₀, h₁, (hfailed 1 "gone" h₁).1, h₂, hvalue.trans hseven,
    (hdue (by decide)).trans hmin⟩

end Readers
end EdgeGateway.Refresh

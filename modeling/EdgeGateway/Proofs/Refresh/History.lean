import Mathlib.Tactic.SplitIfs
import EdgeGateway.Refresh.Readers

/-! # The loads of a cell

The actions of a run are numbered, and the loads of a cell are written down: at which action and at
which reading of the clock each of them began, and how it ended. A value is dated by the action at
which the load began that brought it. A run with this record is the run of the readers once the
dates are forgotten (`forget_run`).

* `moves`: all that one action can do.
* `Tallied.run`: a reader that has gone beyond the queue is at its head, the load under way is the
  last one of the record, and each load began after the end of those before it. -/

namespace EdgeGateway.Refresh

universe u v

/-! ### Runs with a record -/

/-- A value with the place in the run of the action at which its load began; what was there from the
beginning has the place zero. -/
structure Dated (α : Type u) where
  value : α
  since : Nat
  deriving DecidableEq, Inhabited

/-- At which action a load ended, and whether with a value. -/
structure Ending where
  place : Nat
  succeeded : Bool
  deriving DecidableEq, Inhabited

/-- A load: the mode of its reader, the reading of the clock by which the value was due, the action
at which it began, and its end if it came to one. -/
structure Loading where
  mode : Mode
  reading : UInt64
  began : Nat
  ended : Option Ending
  deriving DecidableEq, Inhabited

namespace Loading

/-- The load ends. -/
def close (place : Nat) (succeeded : Bool) (l : Loading) : Loading :=
  { l with ended := some ⟨place, succeeded⟩ }

/-- The load ended before an action. -/
def EndedBefore (l : Loading) (place : Nat) : Prop := ∃ e, l.ended = some e ∧ e.place < place

/-- The load brought no value. -/
def failed (l : Loading) : Bool := l.ended.any fun e => !e.succeeded

/-- The load failed, and its reader failed with it. -/
def Refused (l : Loading) : Prop := l.mode = .failing ∧ l.failed = true

/-- The load failed, and its reader kept the old value for another window. -/
def KeptStale (l : Loading) : Prop := l.mode = .serveStale ∧ l.failed = true

/-- The load was under way at an action, and stored a value later. -/
def StoredAcross (l : Loading) (place : Nat) : Prop :=
  l.began ≤ place ∧ ¬ l.Refused ∧ (l.ended.any fun e => place < e.place) = true

theorem EndedBefore.later {l : Loading} {p q : Nat} (hl : l.EndedBefore p) (hle : p ≤ q) :
    l.EndedBefore q := by
  obtain ⟨e, he, hlt⟩ := hl
  exact ⟨e, he, Nat.lt_of_lt_of_le hlt hle⟩

instance (l : Loading) : Decidable l.Refused := by unfold Refused; infer_instance

instance (l : Loading) : Decidable l.KeptStale := by unfold KeptStale; infer_instance

instance (l : Loading) (place : Nat) : Decidable (l.StoredAcross place) := by
  unfold StoredAcross; infer_instance

end Loading

/-- The values that an action brings, changed. -/
def Action.map {ε : Type v} {α : Type u} {β : Type u} (f : α → β) : Action ε α → Action ε β
  | arrive mode => .arrive mode
  | judge i now => .judge i now
  | lookAgain => .lookAgain
  | judgeAgain now => .judgeAgain now
  | loaded result => .loaded (result.map f)
  | invalidate => .invalidate

/-- Readers whose values are dated, the number of actions so far, and the loads, the latest
first. -/
structure History (ε : Type v) (α : Type u) where
  present : Readers ε (Dated α)
  steps : Nat
  loads : List Loading

namespace History

variable {ε : Type v} {α : Type u}

/-- A cell without readers. -/
def start (window : Duration) (cell : Cell α) : History ε α :=
  ⟨.quiet window ⟨⟨cell.value, 0⟩, cell.due⟩, 0, []⟩

/-- A value of the load under way. -/
def date (h : History ε α) (a : α) : Dated α := ⟨a, (h.loads.head?.map Loading.began).getD 0⟩

/-- The record after an action. -/
def record (h : History ε α) : Action ε α → List Loading
  | .judgeAgain now =>
    match h.present.holder? with
    | some (_, .lookingAgain mode seen) =>
      if now < seen.due then h.loads else ⟨mode, now, h.steps, none⟩ :: h.loads
    | _ => h.loads
  | .loaded result =>
    match h.present.holder? with
    | some (_, .loading ..) => h.loads.modifyHead (.close h.steps result.isOk)
    | _ => h.loads
  | _ => h.loads

/-- One action. -/
def step (h : History ε α) (a : Action ε α) : History ε α :=
  ⟨h.present.step (a.map h.date), h.steps + 1, h.record a⟩

/-- A run of actions. -/
def run (h : History ε α) (as : List (Action ε α)) : History ε α := as.foldl step h

end History

/-- **The end of a load** fails and changes nothing, or answers with the value that it stores: the
one that was loaded, or the old one. -/
theorem Cell.settle_cases {ε : Type v} {α : Type u} (mode : Mode) (w : Duration) (now : UInt64)
    (old : α) (loaded : Except ε α) (c : Cell α) :
    (∃ e, mode = .failing ∧ loaded = .error e ∧ c.settle mode w now old loaded = (.error e, c)) ∨
    ∃ a, c.settle mode w now old loaded = (.ok a, Cell.stored w a now) ∧
      (loaded = .ok a ∨ mode = .serveStale ∧ a = old ∧ loaded.isOk = false) := by
  cases loaded with
  | ok a => exact Or.inr ⟨a, rfl, Or.inl rfl⟩
  | error e =>
    cases mode with
    | failing => exact Or.inl ⟨e, rfl, rfl, rfl⟩
    | serveStale => exact Or.inr ⟨old, rfl, Or.inr ⟨rfl, rfl, rfl⟩⟩

/-! ### The record does not interfere -/

section

variable {ε : Type v} {α β : Type u}

def Cell.map (f : α → β) (c : Cell α) : Cell β := ⟨f c.value, c.due⟩

def Reader.map (f : α → β) : Reader ε α → Reader ε β
  | looking mode seen => .looking mode (seen.map f)
  | queued mode => .queued mode
  | lookingAgain mode seen => .lookingAgain mode (seen.map f)
  | loading mode now old => .loading mode now (f old)
  | done result => .done (result.map f)

/-- The reader loads. -/
def Reader.IsLoading : Reader ε α → Prop
  | loading .. => True
  | _ => False

/-- The reader has the refresh lock and has read the cell again. -/
def Reader.Holds : Reader ε α → Prop
  | lookingAgain .. => True
  | loading .. => True
  | _ => False

theorem Reader.IsLoading.holds {r : Reader ε α} (hr : r.IsLoading) : r.Holds := by
  cases r <;> first | exact hr | trivial

def Readers.map (f : α → β) (s : Readers ε α) : Readers ε β :=
  ⟨s.window, s.cell.map f, s.readers.map (Reader.map f), s.queue⟩

theorem Cell.fresh?_map (f : α → β) (c : Cell α) (now : UInt64) :
    (c.map f).fresh? now = (c.fresh? now).map f := by
  unfold Cell.fresh? Cell.map
  split_ifs <;> rfl

theorem Readers.holder?_map (f : α → β) (s : Readers ε α) :
    (s.map f).holder? = s.holder?.map fun p => (p.1, p.2.map f) := by
  unfold Readers.holder? Readers.map
  cases s.queue with
  | nil => rfl
  | cons i q => simp [Function.comp_def]

theorem Readers.move_map (f : α → β) (s : Readers ε α) (i : Nat) (r : Reader ε α) :
    (s.move i r).map f = (s.map f).move i (r.map f) := by
  simp [Readers.move, Readers.map, List.map_set]

theorem Readers.finish_map (f : α → β) (s : Readers ε α) (i : Nat) (r : Except ε α) :
    (s.finish i r).map f = (s.map f).finish i (r.map f) := by
  simp [Readers.finish, Readers.move, Readers.map, List.map_set, Reader.map]

theorem Cell.settle_map (f : α → β) (mode : Mode) (w : Duration) (now : UInt64) (old : α)
    (r : Except ε α) (c : Cell α) : (c.map f).settle mode w now (f old) (r.map f) =
      (((c.settle mode w now old r).1).map f, ((c.settle mode w now old r).2).map f) := by
  cases r with
  | ok a => rfl
  | error e => cases mode <;> rfl

/-- The readers do the same whatever the values are. -/
theorem Readers.step_map (f : α → β) (s : Readers ε α) (a : Action ε α) :
    (s.step a).map f = (s.map f).step (a.map f) := by
  cases a with
  | arrive mode => simp [Readers.step, Readers.map, Action.map, Reader.map]
  | judge i now =>
    have hi : (s.map f).readers[i]? = s.readers[i]?.map (Reader.map f) := by simp [Readers.map]
    simp only [Readers.step, Action.map, hi]
    cases hr : s.readers[i]? with
    | none => rfl
    | some r =>
      cases r with
      | looking mode seen =>
        simp only [Option.map_some, Reader.map, Cell.fresh?_map]
        cases seen.fresh? now with
        | none => simp [Readers.move, Readers.map, List.map_set, Reader.map]
        | some a => exact s.move_map f i _
      | _ => rfl
  | lookAgain =>
    simp only [Readers.step, Action.map, Readers.holder?_map]
    rcases s.holder? with _ | ⟨i, r⟩
    · rfl
    · cases r with
      | queued mode => exact s.move_map f i _
      | _ => rfl
  | judgeAgain now =>
    simp only [Readers.step, Action.map, Readers.holder?_map]
    rcases s.holder? with _ | ⟨i, r⟩
    · rfl
    · cases r with
      | lookingAgain mode seen =>
        simp only [Option.map_some, Reader.map, Cell.fresh?_map]
        cases seen.fresh? now with
        | none => exact s.move_map f i _
        | some a => exact s.finish_map f i _
      | _ => rfl
  | loaded result =>
    simp only [Readers.step, Action.map, Readers.holder?_map]
    rcases s.holder? with _ | ⟨i, r⟩
    · rfl
    · cases r with
      | loading mode now old =>
        have hs := s.cell.settle_map f mode s.window now old result
        simp only [Option.map_some, Reader.map]
        rw [Readers.finish_map]
        simp only [Readers.map, hs]
      | _ => rfl
  | invalidate => rfl

end

namespace History

variable {ε : Type v} {α : Type u} {h h' : History ε α}

theorem map_date (h : History ε α) (a : Action ε α) : (a.map h.date).map Dated.value = a := by
  cases a with
  | loaded result => cases result <;> rfl
  | _ => rfl

/-- **A run with its record** is the run of the readers, once the dates are forgotten. -/
theorem forget_run (h : History ε α) (as : List (Action ε α)) :
    (h.run as).present.map Dated.value = (h.present.map Dated.value).run as := by
  induction as generalizing h with
  | nil => rfl
  | cons a as ih =>
    have hs : (h.step a).present.map Dated.value = (h.present.map Dated.value).step a := by
      show (h.present.step (a.map h.date)).map Dated.value = _
      rw [Readers.step_map, h.map_date a]
    exact (ih (h.step a)).trans (congrArg (·.run as) hs)

/-- The reader at a place. -/
def At (h : History ε α) (i : Nat) (r : Reader ε (Dated α)) : Prop :=
  h.present.readers[i]? = some r

/-- A load that fails is closed as failed. -/
theorem failed_close {l : Loading} {place : Nat} {f : α → Dated α} {result : Except ε α} {e : ε}
    (hr : result.map f = .error e) : (l.close place result.isOk).failed = true := by
  cases result with
  | ok a => cases hr
  | error e => rfl

/-! ### What one action can do -/

/-- The history after one more action. -/
def next (h : History ε α) (s : Readers ε (Dated α)) (loads : List Loading) : History ε α :=
  ⟨s, h.steps + 1, loads⟩

/-- All that an action can do. -/
inductive Moves (h : History ε α) : Action ε α → History ε α → Prop
  | idle (a : Action ε α) : Moves h a (h.next h.present h.loads)
  | arrive (mode : Mode) : Moves h (.arrive mode) (h.next
      { h.present with readers := h.present.readers ++ [.looking mode h.present.cell] } h.loads)
  | serve {i : Nat} {now : UInt64} {mode : Mode} {seen : Cell (Dated α)}
      (hi : h.present.readers[i]? = some (.looking mode seen)) (hnow : now < seen.due) :
      Moves h (.judge i now) (h.next (h.present.move i (.done (.ok seen.value))) h.loads)
  | join {i : Nat} {now : UInt64} {mode : Mode} {seen : Cell (Dated α)}
      (hi : h.present.readers[i]? = some (.looking mode seen)) (hnow : ¬ now < seen.due) :
      Moves h (.judge i now) (h.next
        { h.present.move i (.queued mode) with queue := h.present.queue ++ [i] } h.loads)
  | lookAgain {i : Nat} {mode : Mode} (hq : h.present.queue.head? = some i)
      (hi : h.present.readers[i]? = some (.queued mode)) :
      Moves h .lookAgain
        (h.next (h.present.move i (.lookingAgain mode h.present.cell)) h.loads)
  | serveAgain {i : Nat} {now : UInt64} {mode : Mode} {seen : Cell (Dated α)}
      (hq : h.present.queue.head? = some i)
      (hi : h.present.readers[i]? = some (.lookingAgain mode seen)) (hnow : now < seen.due) :
      Moves h (.judgeAgain now) (h.next (h.present.finish i (.ok seen.value)) h.loads)
  | begin {i : Nat} {now : UInt64} {mode : Mode} {seen : Cell (Dated α)}
      (hq : h.present.queue.head? = some i)
      (hi : h.present.readers[i]? = some (.lookingAgain mode seen)) (hnow : ¬ now < seen.due) :
      Moves h (.judgeAgain now) (h.next (h.present.move i (.loading mode now seen.value))
        (⟨mode, now, h.steps, none⟩ :: h.loads))
  | settle {i : Nat} {now : UInt64} {mode : Mode} {old : Dated α} {result : Except ε α}
      (hq : h.present.queue.head? = some i)
      (hi : h.present.readers[i]? = some (.loading mode now old)) :
      Moves h (.loaded result) (h.next
        ({ h.present with
            cell := (h.present.cell.settle mode h.present.window now old
              (result.map h.date)).2 }.finish i
          (h.present.cell.settle mode h.present.window now old (result.map h.date)).1)
        (h.loads.modifyHead (.close h.steps result.isOk)))
  | invalidate : Moves h .invalidate
      (h.next { h.present with cell := h.present.cell.invalidate } h.loads)

theorem holder?_eq_some {s : Readers ε α} {i : Nat} {r : Reader ε α}
    (hr : s.holder? = some (i, r)) : s.queue.head? = some i ∧ s.readers[i]? = some r := by
  unfold Readers.holder? at hr
  cases hq : s.queue with
  | nil => simp [hq] at hr
  | cons j q =>
    simp only [hq, Option.map_eq_some_iff, Prod.mk.injEq] at hr
    obtain ⟨_, hr, rfl, rfl⟩ := hr
    exact ⟨rfl, hr⟩

theorem step_moves (h : History ε α) (a : Action ε α) : h.Moves a (h.step a) := by
  cases a with
  | arrive mode => exact .arrive mode
  | judge i now =>
    show h.Moves _ (h.next (h.present.step (.judge i now)) h.loads)
    cases hi : h.present.readers[i]? with
    | none => simpa only [Readers.step, hi] using .idle _
    | some r =>
      cases r with
      | looking mode seen =>
        simp only [Readers.step, hi, Cell.fresh?]
        split_ifs with hnow
        · exact .serve hi hnow
        · exact .join hi hnow
      | _ => simpa only [Readers.step, hi] using .idle _
  | lookAgain =>
    show h.Moves _ (h.next (h.present.step .lookAgain) h.loads)
    rcases hr : h.present.holder? with _ | ⟨i, r⟩
    · simpa only [Readers.step, hr] using .idle _
    · cases r with
      | queued mode =>
        obtain ⟨hq, hi⟩ := holder?_eq_some hr
        simpa only [Readers.step, hr] using .lookAgain hq hi
      | _ => simpa only [Readers.step, hr] using .idle _
  | judgeAgain now =>
    show h.Moves _ (h.next (h.present.step (.judgeAgain now)) (h.record (.judgeAgain now)))
    rcases hr : h.present.holder? with _ | ⟨i, r⟩
    · simpa only [Readers.step, record, hr] using .idle _
    · cases r with
      | lookingAgain mode seen =>
        obtain ⟨hq, hi⟩ := holder?_eq_some hr
        simp only [Readers.step, record, hr, Cell.fresh?]
        split_ifs with hnow
        · exact .serveAgain hq hi hnow
        · exact .begin hq hi hnow
      | _ => simpa only [Readers.step, record, hr] using .idle _
  | loaded result =>
    show h.Moves _
      (h.next (h.present.step (.loaded (result.map h.date))) (h.record (.loaded result)))
    rcases hr : h.present.holder? with _ | ⟨i, r⟩
    · simpa only [Readers.step, record, hr] using .idle _
    · cases r with
      | loading mode now old =>
        obtain ⟨hq, hi⟩ := holder?_eq_some hr
        simpa only [Readers.step, record, hr] using .settle hq hi
      | _ => simpa only [Readers.step, record, hr] using .idle _
  | invalidate => exact .invalidate

theorem getElem?_move {s : Readers ε α} {i j : Nat} {r r' : Reader ε α}
    (hj : (s.move i r).readers[j]? = some r') :
    j = i ∧ r' = r ∨ j ≠ i ∧ s.readers[j]? = some r' := by
  simp only [Readers.move, List.getElem?_set] at hj
  split_ifs at hj with hij hlt
  · exact Or.inl ⟨hij.symm, (Option.some.inj hj).symm⟩
  · exact Or.inr ⟨fun hji => hij hji.symm, hj⟩

theorem getElem?_append {rs : List (Reader ε α)} {j : Nat} {r r' : Reader ε α}
    (hj : (rs ++ [r])[j]? = some r') : j = rs.length ∧ r' = r ∨ rs[j]? = some r' := by
  rw [List.getElem?_append] at hj
  split_ifs at hj with hlt
  · exact Or.inr hj
  · rw [List.getElem?_singleton] at hj
    split_ifs at hj with hz
    exact Or.inl ⟨by omega, (Option.some.inj hj).symm⟩

/-- Where a reader comes from: it was there before, or an action has just brought it there. -/
inductive Came (h h' : History ε α) (i : Nat) : Reader ε (Dated α) → Prop
  | stay {r : Reader ε (Dated α)} (hi : h.At i r) : Came h h' i r
  | arrive {mode : Mode} (hi : i = h.present.readers.length) :
      Came h h' i (.looking mode h.present.cell)
  | join {mode : Mode} {seen : Cell (Dated α)} (hi : h.At i (.looking mode seen)) :
      Came h h' i (.queued mode)
  | lookAgain {mode : Mode} (hi : h.At i (.queued mode)) :
      Came h h' i (.lookingAgain mode h.present.cell)
  | begin {mode : Mode} {now : UInt64} {seen : Cell (Dated α)}
      (hi : h.At i (.lookingAgain mode seen)) (hnow : ¬ now < seen.due)
      (hl : h'.loads = ⟨mode, now, h.steps, none⟩ :: h.loads) :
      Came h h' i (.loading mode now seen.value)
  | serve {mode : Mode} {now : UInt64} {seen : Cell (Dated α)}
      (hi : h.At i (.looking mode seen) ∨ h.At i (.lookingAgain mode seen))
      (hnow : now < seen.due) : Came h h' i (.done (.ok seen.value))
  | settle {mode : Mode} {now : UInt64} {old : Dated α} {result : Except ε α}
      {answer : Except ε (Dated α)} (hi : h.At i (.loading mode now old))
      (hl : h'.loads = h.loads.modifyHead (.close h.steps result.isOk))
      (ha : (h.present.cell.settle mode h.present.window now old (result.map h.date)).1 = answer) :
      Came h h' i (.done answer)

/-- A reader that was moved came so, and every other one stayed. -/
theorem came_of_move {s : Readers ε (Dated α)} {i j : Nat} {r r' : Reader ε (Dated α)}
    (hs : s.readers = h.present.readers) (hj : (s.move i r).readers[j]? = some r')
    (hr : Came h h' i r) : Came h h' j r' := by
  rcases getElem?_move hj with ⟨rfl, rfl⟩ | ⟨-, hj⟩
  · exact hr
  · rw [hs] at hj
    exact .stay hj

theorem Moves.came {a : Action ε α} (hm : h.Moves a h') {j : Nat} {r : Reader ε (Dated α)}
    (hj : h'.At j r) : Came h h' j r := by
  cases hm with
  | idle => exact .stay hj
  | arrive mode =>
    rcases getElem?_append hj with ⟨rfl, rfl⟩ | hj
    · exact .arrive rfl
    · exact .stay hj
  | serve hi hnow => exact came_of_move rfl hj (.serve (Or.inl hi) hnow)
  | join hi hnow => exact came_of_move rfl hj (.join hi)
  | lookAgain hq hi => exact came_of_move rfl hj (.lookAgain hi)
  | serveAgain hq hi hnow => exact came_of_move rfl hj (.serve (Or.inr hi) hnow)
  | begin hq hi hnow => exact came_of_move rfl hj (.begin hi hnow rfl)
  | settle hq hi => exact came_of_move rfl hj (.settle hi rfl rfl)
  | invalidate => exact .stay hj

/-! ### Loads take turns -/

/-- A reader that moves from one place where it does not load to another. -/
theorem loading_move_iff {s : Readers ε α} {i j : Nat} {r r₀ : Reader ε α}
    (hi : s.readers[i]? = some r₀) (h₀ : ¬ r₀.IsLoading) (hr : ¬ r.IsLoading) {mode : Mode}
    {now : UInt64} {old : α} :
    (s.move i r).readers[j]? = some (.loading mode now old) ↔
      s.readers[j]? = some (.loading mode now old) := by
  constructor
  · intro hj
    rcases getElem?_move hj with ⟨-, heq⟩ | ⟨-, hj⟩
    · exact absurd (heq ▸ trivial) hr
    · exact hj
  · intro hj
    have hne : i ≠ j := by
      rintro rfl
      exact h₀ (Option.some.inj (hi.symm.trans hj) ▸ trivial)
    rw [Readers.move, List.getElem?_set_ne hne]
    exact hj

/-- A reader loads. -/
def Loads (h : History ε α) : Prop := ∃ i mode now old, h.At i (.loading mode now old)

/-- The record fits the readers: only the head of the queue goes on, the load under way is the last
one, and each load began after the end of those before it. -/
structure Tallied (h : History ε α) : Prop where
  sole : ∀ i r, h.At i r → r.Holds → h.present.queue.head? = some i
  underWay : ∀ i mode now old, h.At i (.loading mode now old) →
    ∃ l ls, h.loads = l :: ls ∧ l.mode = mode ∧ l.reading = now ∧ l.ended = none
  ended : ¬ h.Loads → ∀ l ∈ h.loads, l.EndedBefore h.steps
  apart : h.loads.Pairwise fun later earlier => earlier.EndedBefore later.began
  past : ∀ l ∈ h.loads, l.began < h.steps

theorem Tallied.eq_of_holds (ht : Tallied h) {i j : Nat} {r : Reader ε (Dated α)}
    (hq : h.present.queue.head? = some i) (hj : h.At j r) (hr : r.Holds) : j = i := by
  have hs := ht.sole j r hj hr
  rw [hq, Option.some.injEq] at hs
  exact hs.symm

/-- Nobody has gone beyond the queue once its head is done. -/
theorem Tallied.not_holds_of_finish (ht : Tallied h) {i j : Nat} {result : Except ε (Dated α)}
    {r : Reader ε (Dated α)} (hq : h.present.queue.head? = some i)
    (hj : (h.present.readers.set i (.done result))[j]? = some r) : ¬ r.Holds := by
  intro hr
  rcases getElem?_move (s := h.present) hj with ⟨-, rfl⟩ | ⟨hne, hj⟩
  · exact hr
  · exact hne (ht.eq_of_holds hq hj hr)

/-- Nobody loads while the head of the queue is about to decide whether to. -/
theorem Tallied.not_loads (ht : Tallied h) {i : Nat} {mode : Mode} {seen : Cell (Dated α)}
    (hq : h.present.queue.head? = some i) (hi : h.At i (.lookingAgain mode seen)) : ¬ h.Loads := by
  rintro ⟨j, mode', now, old, hj⟩
  obtain rfl := ht.eq_of_holds hq hj trivial
  cases hi.symm.trans hj

/-- An action that begins and ends no load. -/
theorem Tallied.keep (ht : Tallied h) {s : Readers ε (Dated α)}
    (hsole : ∀ i r, s.readers[i]? = some r → r.Holds → s.queue.head? = some i)
    (hload : ∀ i mode now old, s.readers[i]? = some (.loading mode now old) ↔
      h.At i (.loading mode now old)) : Tallied (h.next s h.loads) where
  sole := hsole
  underWay i mode now old hi := ht.underWay i mode now old ((hload i mode now old).mp hi)
  ended hn l hl := by
    refine (ht.ended ?_ l hl).later (Nat.le_succ _)
    rintro ⟨i, mode, now, old, hi⟩
    exact hn ⟨i, mode, now, old, (hload i mode now old).mpr hi⟩
  apart := ht.apart
  past l hl := Nat.lt_succ_of_lt (ht.past l hl)

/-- The load under way ends. -/
theorem Tallied.close (ht : Tallied h) {s : Readers ε (Dated α)} {i : Nat} {mode : Mode}
    {now : UInt64} {old : Dated α} (hi : h.At i (.loading mode now old))
    (hs : ∀ (j : Nat) r, s.readers[j]? = some r → ¬ r.Holds) (succeeded : Bool) :
    Tallied (h.next s (h.loads.modifyHead (.close h.steps succeeded))) := by
  obtain ⟨l, ls, hls, -, -, -⟩ := ht.underWay i mode now old hi
  have hapart := ht.apart
  have hpast := ht.past
  rw [hls] at hapart hpast
  obtain ⟨hl, hrest⟩ := List.pairwise_cons.mp hapart
  obtain ⟨hbegan, hpast⟩ := List.forall_mem_cons.mp hpast
  rw [hls, List.modifyHead_cons]
  refine ⟨fun j r hj hr => absurd hr (hs j r hj), fun j mode now old hj => ?_, fun _ => ?_, ?_, ?_⟩
  · exact absurd trivial (hs j _ hj)
  · exact List.forall_mem_cons.mpr ⟨⟨_, rfl, Nat.lt_succ_self _⟩, fun l' hl' =>
      (hl l' hl').later (Nat.le_succ_of_le (Nat.le_of_lt hbegan))⟩
  · exact List.pairwise_cons.mpr ⟨hl, hrest⟩
  · exact List.forall_mem_cons.mpr
      ⟨Nat.lt_succ_of_lt hbegan, fun l' hl' => Nat.lt_succ_of_lt (hpast l' hl')⟩

theorem Tallied.moves (ht : Tallied h) {a : Action ε α} (hm : h.Moves a h') : Tallied h' := by
  cases hm with
  | idle => exact ht.keep ht.sole fun _ _ _ _ => Iff.rfl
  | arrive mode =>
    refine ht.keep (fun i r hi hr => ?_) fun i mode' now old => ⟨fun hi => ?_, fun hi => ?_⟩
    · rcases getElem?_append hi with ⟨-, rfl⟩ | hi
      · exact hr.elim
      · exact ht.sole i r hi hr
    · rcases getElem?_append hi with ⟨-, heq⟩ | hi
      · cases heq
      · exact hi
    · exact List.getElem?_append_left (List.getElem?_eq_some_iff.mp hi).1 ▸ hi
  | serve hi hnow =>
    refine ht.keep (fun j r hj hr => ?_) fun _ _ _ _ => loading_move_iff hi id id
    rcases getElem?_move hj with ⟨-, rfl⟩ | ⟨-, hj⟩
    · exact hr.elim
    · exact ht.sole j r hj hr
  | @join i now mode seen hi hnow =>
    refine ht.keep (fun j r hj hr => ?_) fun _ _ _ _ => loading_move_iff hi id id
    rcases getElem?_move hj with ⟨-, rfl⟩ | ⟨-, hj⟩
    · exact hr.elim
    · show (h.present.queue ++ [i]).head? = some j
      rw [List.head?_append, ht.sole j r hj hr]
      rfl
  | lookAgain hq hi =>
    refine ht.keep (fun j r hj hr => ?_) fun _ _ _ _ => loading_move_iff hi id id
    rcases getElem?_move hj with ⟨rfl, -⟩ | ⟨-, hj⟩
    · exact hq
    · exact ht.sole j r hj hr
  | serveAgain hq hi hnow =>
    exact ht.keep (fun j r hj hr => absurd hr (ht.not_holds_of_finish hq hj))
      fun _ _ _ _ => loading_move_iff hi id id
  | @begin i now mode seen hq hi hnow =>
    have hended := ht.ended (ht.not_loads hq hi)
    refine ⟨fun j r hj hr => ?_, fun j mode' now' old hj => ?_, fun hn => ?_, ?_, ?_⟩
    · rcases getElem?_move hj with ⟨rfl, -⟩ | ⟨-, hj⟩
      · exact hq
      · exact ht.sole j r hj hr
    · rcases getElem?_move hj with ⟨-, heq⟩ | ⟨hne, hj⟩
      · cases heq
        exact ⟨_, _, rfl, rfl, rfl, rfl⟩
      · exact absurd (ht.eq_of_holds hq hj trivial) hne
    · refine absurd ⟨i, mode, now, seen.value, ?_⟩ hn
      exact List.getElem?_set_self (List.getElem?_eq_some_iff.mp hi).1
    · exact List.pairwise_cons.mpr ⟨hended, ht.apart⟩
    · exact List.forall_mem_cons.mpr
        ⟨Nat.lt_succ_self _, fun l hl => Nat.lt_succ_of_lt (ht.past l hl)⟩
  | settle hq hi => exact ht.close hi (fun j r hj => ht.not_holds_of_finish hq hj) _
  | invalidate => exact ht.keep ht.sole fun _ _ _ _ => Iff.rfl

theorem tallied_start (window : Duration) (cell : Cell α) :
    Tallied (start window cell : History ε α) where
  sole i r hi := by cases hi
  underWay i mode now old hi := by cases hi
  ended _ l hl := by cases hl
  apart := .nil
  past l hl := by cases hl

theorem Tallied.step (ht : Tallied h) (a : Action ε α) : Tallied (h.step a) :=
  ht.moves (h.step_moves a)

/-- **Loads take turns** in every run. -/
theorem Tallied.run (ht : Tallied h) (as : List (Action ε α)) : Tallied (h.run as) := by
  induction as generalizing h with
  | nil => exact ht
  | cons a as ih => exact ih (ht.step a)

/-- A load that has ended stays in the record. -/
theorem Tallied.mem_loads (ht : Tallied h) {a : Action ε α} (hm : h.Moves a h') {l : Loading}
    (hl : l ∈ h.loads) (he : l.ended.isSome) : l ∈ h'.loads := by
  cases hm with
  | begin => exact List.mem_cons_of_mem _ hl
  | settle hq hi =>
    obtain ⟨l', ls, hls, -, -, hnone⟩ := ht.underWay _ _ _ _ hi
    rw [hls] at hl
    show l ∈ h.loads.modifyHead _
    rw [hls, List.modifyHead_cons]
    rcases List.mem_cons.mp hl with rfl | hl
    · rw [hnone] at he
      cases he
    · exact List.mem_cons_of_mem _ hl
  | _ => exact hl

theorem Tallied.mem_loads_run (ht : Tallied h) {l : Loading} (hl : l ∈ h.loads)
    (he : l.ended.isSome) (as : List (Action ε α)) : l ∈ (h.run as).loads := by
  induction as generalizing h with
  | nil => exact hl
  | cons a as ih => exact ih (ht.step a) (ht.mem_loads (h.step_moves a) hl he)

theorem steps_run (h : History ε α) (as : List (Action ε α)) :
    (h.run as).steps = h.steps + as.length := by
  induction as generalizing h with
  | nil => rfl
  | cons a as ih => exact (ih (h.step a)).trans (Nat.add_right_comm _ _ _)

end History
end EdgeGateway.Refresh

import EdgeGateway.Refresh.Cell

/-!
# Concurrent readers of a cell

Any number of readers share a cell. A reader reads the cell and then the clock; one that finds the
value due joins the queue for the refresh lock, which its head holds. The head reads the cell and
the clock once more and, if the value is still due, loads it. Between any two actions of a reader
the others may go on, the cell may be invalidated and the clock may move.
-/

namespace EdgeGateway.Refresh

universe u v

/-- Where a reader is. -/
inductive Reader (ε : Type v) (α : Type u)
  | looking (mode : Mode) (seen : Cell α)
  | queued (mode : Mode)
  | lookingAgain (mode : Mode) (seen : Cell α)
  | loading (mode : Mode) (now : UInt64) (old : α)
  | done (result : Except ε α)

/-- A cell with its readers: those that came so far, and the queue for the refresh lock. -/
structure Readers (ε : Type v) (α : Type u) where
  window : Duration
  cell : Cell α
  readers : List (Reader ε α)
  queue : List Nat

/-- A reader comes and reads the cell, the one at some place reads the clock, the lock's holder
reads the cell, then the clock, then ends its load, or the cell is invalidated. -/
inductive Action (ε : Type v) (α : Type u)
  | arrive (mode : Mode)
  | judge (place : Nat) (now : UInt64)
  | lookAgain
  | judgeAgain (now : UInt64)
  | loaded (result : Except ε α)
  | invalidate

namespace Readers

variable {ε : Type v} {α : Type u}

/-- A cell without readers. -/
def quiet (window : Duration) (cell : Cell α) : Readers ε α := ⟨window, cell, [], []⟩

/-- The head of the queue, and where it is. -/
def holder? (s : Readers ε α) : Option (Nat × Reader ε α) :=
  match s.queue with
  | [] => none
  | i :: _ => s.readers[i]?.map fun r => (i, r)

/-- A reader goes on to where it is next. -/
def move (s : Readers ε α) (i : Nat) (r : Reader ε α) : Readers ε α :=
  { s with readers := s.readers.set i r }

/-- The head of the queue is done and lets the next one have the lock. -/
def finish (s : Readers ε α) (i : Nat) (result : Except ε α) : Readers ε α :=
  { s.move i (.done result) with queue := s.queue.drop 1 }

/-- One action; one that does not apply changes nothing. -/
def step (s : Readers ε α) : Action ε α → Readers ε α
  | .arrive mode => { s with readers := s.readers ++ [.looking mode s.cell] }
  | .judge i now =>
    match s.readers[i]? with
    | some (.looking mode seen) =>
      match seen.fresh? now with
      | some a => s.move i (.done (.ok a))
      | none => { s.move i (.queued mode) with queue := s.queue ++ [i] }
    | _ => s
  | .lookAgain =>
    match s.holder? with
    | some (i, .queued mode) => s.move i (.lookingAgain mode s.cell)
    | _ => s
  | .judgeAgain now =>
    match s.holder? with
    | some (i, .lookingAgain mode seen) =>
      match seen.fresh? now with
      | some a => s.finish i (.ok a)
      | none => s.move i (.loading mode now seen.value)
    | _ => s
  | .loaded result =>
    match s.holder? with
    | some (i, .loading mode now old) =>
      let (result, cell) := s.cell.settle mode s.window now old result
      { s with cell := cell }.finish i result
    | _ => s
  | .invalidate => { s with cell := s.cell.invalidate }

/-- A run of actions. -/
def run (s : Readers ε α) (as : List (Action ε α)) : Readers ε α := as.foldl step s

end Readers
end EdgeGateway.Refresh

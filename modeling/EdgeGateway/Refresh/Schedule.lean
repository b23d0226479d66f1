import EdgeGateway.Refresh.Readers

/-!
# Readers on one thread

Readers that start together on one thread come in order, each as far as it gets: one that must load
and whose load does not pause is done before the next one starts, and one whose load pauses lets
the others start and queue up behind it. A load may move the clock and invalidate the cell before
it ends.
-/

namespace EdgeGateway.Refresh

universe u v

/-- What a load does: it pauses so many times, moves the clock, may invalidate, and ends. -/
structure Load (ε : Type v) (α : Type u) where
  mode : Mode
  pauses : Nat
  advance : UInt64
  invalidates : Bool
  result : Except ε α

/-- The readers with the clock, and the readers whose loads ran, in order. -/
structure Thread (ε : Type v) (α : Type u) where
  readers : Readers ε α
  clock : ManualClock
  loads : List Nat

namespace Thread

variable {ε : Type v} {α : Type u}

/-- The load of the lock's holder goes on to its end. -/
def endLoad (t : Thread ε α) (l : Load ε α) : Thread ε α :=
  let r := if l.invalidates then t.readers.step .invalidate else t.readers
  { t with readers := r.step (.loaded l.result), clock := t.clock.advance l.advance }

/-- The lock's holder looks again, and begins its load if it must. -/
def lookAgain (t : Thread ε α) : Thread ε α :=
  let r := (t.readers.step .lookAgain).step (.judgeAgain t.clock.now)
  match r.holder? with
  | some (i, .loading ..) => { t with readers := r, loads := t.loads ++ [i] }
  | _ => { t with readers := r }

def isLoading (t : Thread ε α) : Bool :=
  match t.readers.holder? with
  | some (_, .loading ..) => true
  | _ => false

/-- A reader comes and goes as far as it gets. -/
def arrive (t : Thread ε α) (l : Load ε α) : Thread ε α :=
  let r := t.readers.step (.arrive l.mode)
  let t := { t with readers := r.step (.judge t.readers.readers.length t.clock.now) }
  match t.readers.queue with
  | [_] =>
    if t.isLoading then t
    else
      let t := t.lookAgain
      if t.isLoading && l.pauses == 0 then t.endLoad l else t
  | _ => t

/-- The readers in the queue get the lock one after the other. -/
def drain (loads : List (Load ε α)) (t : Thread ε α) : Thread ε α :=
  t.readers.queue.foldl (fun t i =>
    let t := if t.isLoading then t else t.lookAgain
    match t.isLoading, loads[i]? with
    | true, some l => t.endLoad l
    | _, _ => t) t

/-- Readers that start together: what each of them gets, whose loads ran, and what is left. -/
def race (window : Duration) (cell : Cell α) (clock : ManualClock) (loads : List (Load ε α)) :
    Thread ε α :=
  drain loads (loads.foldl arrive ⟨.quiet window cell, clock, []⟩)

end Thread
end EdgeGateway.Refresh

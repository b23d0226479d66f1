import EdgeGateway.Time.Duration

/-!
# Values that are refreshed

A cell holds a value and the clock reading from which on it is due to be loaded again. A read
looks at the clock twice: first without any lock, and again when it holds the refresh lock, because
another reader may have loaded the value in between. When a load fails, a read either fails as well
and leaves the cell alone, or keeps the old value for another window.
-/

namespace EdgeGateway.Refresh

universe u v

/-- A value and the reading from which on it is due. -/
structure Cell (α : Type u) where
  value : α
  due : UInt64
  deriving DecidableEq, Inhabited

/-- What a read does when its load fails: fail, or serve the value it has. -/
inductive Mode
  | failing
  | serveStale
  deriving DecidableEq, Inhabited

namespace Cell

variable {α : Type u} {ε : Type v}

/-- A cell whose first read loads. -/
def initial (a : α) : Cell α := ⟨a, 0⟩

/-- The value, while it is not due. -/
def fresh? (c : Cell α) (now : UInt64) : Option α := if now < c.due then some c.value else none

/-- Makes the next read load. -/
def invalidate (c : Cell α) : Cell α := { c with due := 0 }

/-- The cell that holds `a` for a window from `now` on; the window counts in whole milliseconds of
64 bits. -/
def stored (window : Duration) (a : α) (now : UInt64) : Cell α :=
  ⟨a, saturatingAdd now window.millis.toUInt64⟩

/-- Ends a load that began at `now`, when the cell held `old`. -/
def settle (mode : Mode) (window : Duration) (now : UInt64) (old : α) (loaded : Except ε α)
    (c : Cell α) : Except ε α × Cell α :=
  match loaded with
  | .ok a => (.ok a, stored window a now)
  | .error e =>
    match mode with
    | .failing => (.error e, c)
    | .serveStale => (.ok old, stored window old now)

/-- A read that no other reader overlaps, with the outcome of its load should it come to that. -/
def read (mode : Mode) (window : Duration) (now : UInt64) (loaded : Except ε α) (c : Cell α) :
    Except ε α × Cell α :=
  match c.fresh? now with
  | some a => (.ok a, c)
  | none => c.settle mode window now c.value loaded

end Cell
end EdgeGateway.Refresh

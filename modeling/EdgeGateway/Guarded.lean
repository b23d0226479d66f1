/-!
# Values behind a lock

A value that threads change under a lock. A thread that dies while it holds the lock leaves it
poisoned; the value it wrote last is complete, so later holders go on with it.
-/

namespace EdgeGateway

universe u

/-- A value behind a lock, and whether a holder of the lock has died. -/
structure Guarded (α : Type u) where
  value : α
  poisoned : Bool
  deriving DecidableEq, Inhabited

namespace Guarded

variable {α : Type u}

def new (a : α) : Guarded α := ⟨a, false⟩

/-- Writes the value. -/
def set (g : Guarded α) (a : α) : Guarded α := { g with value := a }

/-- A thread writes the value and dies with the lock held. -/
def die (_ : Guarded α) (a : α) : Guarded α := ⟨a, true⟩

end Guarded
end EdgeGateway

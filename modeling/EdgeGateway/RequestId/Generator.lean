import EdgeGateway.Error
import EdgeGateway.RequestId.Layout

/-!
# Generating request ids

A generator issues increasing ids from the readings of a clock. A reading below the last one that
was used, or before the epoch, is refused and changes nothing. When all 4096 numbers of a
millisecond are used up, the call goes on reading the clock until it shows a later millisecond.

The clock is a sequence of readings, one per look at it, and nothing is assumed of it.
-/

namespace EdgeGateway.RequestId

/-- A generator for one worker of one datacenter, with the last reading it used. -/
structure Generator where
  worker : UInt64
  datacenter : UInt64
  last : UInt64
  sequence : UInt64
  deriving DecidableEq, Inhabited

/-- A call after a reading of the clock. -/
inductive Call
  | refused (last now : UInt64)
  | issued (g : Generator) (id : UInt64)
  | waiting (g : Generator)
  deriving DecidableEq, Inhabited

namespace Generator

/-- A generator that has issued nothing. -/
def create (worker datacenter : UInt64) : Except GatewayError Generator :=
  if maxPlace < worker then .error (.invalidGenerator .worker worker)
  else if maxPlace < datacenter then .error (.invalidGenerator .datacenter datacenter)
  else .ok ⟨worker, datacenter, 0, 0⟩

/-- Issues the id of the current number at a reading. -/
def issue (g : Generator) (now : UInt64) : Call :=
  let g := { g with last := now }
  .issued g (compose ⟨now, g.datacenter, g.worker, g.sequence⟩)

/-- The first reading of a call. -/
def begin (g : Generator) (now : UInt64) : Call :=
  if now < g.last ∨ now < epoch then .refused (max g.last epoch) now
  else if now = g.last then
    let g := { g with sequence := (g.sequence + 1) &&& sequenceMask }
    if g.sequence = 0 then .waiting g else g.issue now
  else { g with sequence := 0 }.issue now

/-- A further reading of a call that waits for the next millisecond. -/
def resume (g : Generator) (now : UInt64) : Call :=
  if g.last < now then g.issue now else .waiting g

/-- The outcome of a call: an id, or why there is none. -/
abbrev Outcome := Except GatewayError UInt64

/-- Waits for a later millisecond; `none` when the readings end first. -/
def await? (g : Generator) : List UInt64 → Option (Outcome × Generator × List UInt64)
  | [] => none
  | now :: rest =>
    match g.resume now with
    | .refused last now => some (.error (.clockBackwards last now), g, rest)
    | .issued g id => some (.ok id, g, rest)
    | .waiting g => await? g rest

/-- One call over the readings to come; `none` when they end before the call does. -/
def next? (g : Generator) : List UInt64 → Option (Outcome × Generator × List UInt64)
  | [] => none
  | now :: rest =>
    match g.begin now with
    | .refused last now => some (.error (.clockBackwards last now), g, rest)
    | .issued g id => some (.ok id, g, rest)
    | .waiting g => await? g rest

end Generator
end EdgeGateway.RequestId

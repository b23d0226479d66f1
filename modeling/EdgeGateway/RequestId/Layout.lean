/-!
# The layout of request ids

A request id has 64 bits: a zero, 41 bits of milliseconds since an epoch of its own, 5 bits for
the datacenter, 5 for the worker and 12 for a number within the millisecond.
-/

namespace EdgeGateway.RequestId

/-- The epoch of request ids, in milliseconds: 2010-11-04T01:42:54.657Z. -/
def epoch : UInt64 := 1288834974657

/-- The largest worker and the largest datacenter. -/
def maxPlace : UInt64 := 31

def sequenceMask : UInt64 := 0xFFF

def timestampMask : UInt64 := 0x1FFFFFFFFFF

/-- What an id is made of. -/
structure Parts where
  timestamp : UInt64
  datacenter : UInt64
  worker : UInt64
  sequence : UInt64
  deriving DecidableEq, Inhabited

/-- The id of its parts; of the time since the epoch the lowest 41 bits are kept. -/
def compose (p : Parts) : UInt64 :=
  (((p.timestamp - epoch) &&& timestampMask) <<< 22) ||| (p.datacenter <<< 17) |||
    (p.worker <<< 12) ||| p.sequence

/-- The parts of an id. -/
def decompose (id : UInt64) : Parts where
  timestamp := ((id >>> 22) &&& timestampMask) + epoch
  datacenter := (id >>> 17) &&& maxPlace
  worker := (id >>> 12) &&& maxPlace
  sequence := id &&& sequenceMask

end EdgeGateway.RequestId

/-!
# Durations and millisecond clocks

A duration is a number of nanoseconds. A reading of a clock is a number of milliseconds in 64 bits.
-/

namespace EdgeGateway

/-- A length of time. -/
structure Duration where
  nanos : Nat
  deriving DecidableEq, Inhabited

namespace Duration

def ofMillis (n : Nat) : Duration := ⟨n * 1000000⟩

def ofSeconds (n : Nat) : Duration := ⟨n * 1000000000⟩

/-- The whole milliseconds of a duration. -/
def millis (d : Duration) : Nat := d.nanos / 1000000

def isZero (d : Duration) : Bool := d.nanos == 0

end Duration

/-- The sum, or the largest reading there is. -/
def saturatingAdd (a b : UInt64) : UInt64 :=
  if a.toNat + b.toNat < UInt64.size then a + b else 0xFFFFFFFFFFFFFFFF

theorem toNat_saturatingAdd (a b : UInt64) :
    (saturatingAdd a b).toNat = min (a.toNat + b.toNat) (UInt64.size - 1) := by
  unfold saturatingAdd UInt64.size
  split
  · rw [UInt64.toNat_add]; omega
  · simp; omega

/-- A duration counts in whole milliseconds of 64 bits. -/
theorem toNat_saturatingAdd_millis (now : UInt64) (d : Duration) :
    (saturatingAdd now d.millis.toUInt64).toNat =
      min (now.toNat + d.millis % UInt64.size) (UInt64.size - 1) := by
  rw [toNat_saturatingAdd, UInt64.toNat_ofNat']

/-- A clock that is moved by hand. -/
structure ManualClock where
  now : UInt64
  deriving DecidableEq, Inhabited

namespace ManualClock

/-- Sets the clock, forwards or backwards. -/
def set (_ : ManualClock) (ms : UInt64) : ManualClock := ⟨ms⟩

/-- Moves the clock on; beyond the largest reading it starts again at zero. -/
def advance (c : ManualClock) (ms : UInt64) : ManualClock := ⟨c.now + ms⟩

end ManualClock
end EdgeGateway

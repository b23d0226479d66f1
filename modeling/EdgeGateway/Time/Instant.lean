import EdgeGateway.Time.Date

/-!
# Instants

An instant in UTC is a date, a second of that day and a part of a second in nanoseconds. A leap
second is the last second of a minute with a part of one second or more.
-/

namespace EdgeGateway

/-- A point in time, in UTC. -/
structure Instant where
  date : Date
  second : Nat
  nanos : Nat
  second_lt : second < 86400
  nanos_lt : nanos < 2000000000
  leap : 1000000000 ≤ nanos → second % 60 = 59
  deriving DecidableEq

namespace Instant

instance : Inhabited Instant := ⟨⟨.epoch, 0, 0, by decide, by decide, by decide⟩⟩

/-- The instant `ms` milliseconds after the epoch, unless it is beyond the range of years. -/
def ofMillis? (ms : Int) : Option Instant := do
  let date ← Date.ofDays? (ms / 86400000)
  let rest := (ms % 86400000).toNat
  return ⟨date, rest / 1000, rest % 1000 * 1000000, by omega, by omega, by omega⟩

/-- The instant that a clock shows which runs `offset` seconds ahead of UTC, by less than a day. -/
def ofLocal? (i : Instant) (offset : Int) : Option Instant := do
  if offset % 60 ≠ 0 then none
  else
    let total := (i.second : Int) - offset
    let date ← if total < 0 then i.date.previous?
      else if 86400 ≤ total then i.date.next?
      else some i.date
    let second := (total % 86400).toNat
    if h : 1000000000 ≤ i.nanos → second % 60 = 59 then
      return ⟨date, second, i.nanos, by omega, i.nanos_lt, h⟩
    else none

end Instant
end EdgeGateway

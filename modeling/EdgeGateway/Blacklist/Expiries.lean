import EdgeGateway.KeyMap

/-!
# Entries that expire

The dynamic list maps addresses to the clock reading at which they expire; zero means never. A
look-up takes place in two critical sections: it reads the entry, then looks at the clock, and when
the entry has expired it looks once more under the write lock. There it removes the entry only if
nobody has changed it in between, and otherwise judges the new one by a second reading.
-/

namespace EdgeGateway.Blacklist

/-- The dynamic list: expiries by the canonical text of the address. -/
abbrev Expiries := KeyMap UInt64

/-- An entry never expires. -/
def isPermanent (expiry : UInt64) : Bool := expiry == 0

/-- An entry has expired at a reading of the clock. -/
def isExpired (expiry now : UInt64) : Bool := !isPermanent expiry && expiry ≤ now

/-- Where a look-up is: it has seen an entry, has seen that it was expired, or knows the answer. -/
inductive Look
  | seen (expiry : UInt64)
  | stale (expiry : UInt64)
  | done (listed : Bool)
  deriving DecidableEq, Inhabited

namespace Look

/-- The first critical section: reads the entry. -/
def begin (d : Expiries) (ip : String) : Look :=
  match d.get? ip with
  | some e => .seen e
  | none => .done false

/-- Judges the entry by the clock. -/
def judge (now : UInt64) : Look → Look
  | .seen e => if isExpired e now then .stale e else .done true
  | l => l

/-- The second critical section: removes the entry if it is still the one that was expired, and
judges another one anew. -/
def settle (d : Expiries) (ip : String) (now : UInt64) : Look → Look × Expiries
  | .stale e =>
    match d.get? ip with
    | none => (.done false, d)
    | some e' => if e' = e then (.done false, d.erase ip) else (.done (!isExpired e' now), d)
  | l => (l, d)

/-- The answer of a look-up that has ended. -/
def listed : Look → Bool
  | .done b => b
  | _ => false

end Look

/-- A look-up; `meanwhile` is what others do to the list when it looks at the clock, which it does
only if there is an entry. -/
def lookUp (d : Expiries) (ip : String) (now : UInt64) (meanwhile : Expiries → Expiries) :
    Bool × Expiries :=
  match Look.begin d ip with
  | .seen e =>
    let (l, d) := ((Look.seen e).judge now).settle (meanwhile d) ip now
    (l.listed, d)
  | l => (l.listed, d)

end EdgeGateway.Blacklist

import EdgeGateway.KeyMap
import EdgeGateway.Time.Duration

/-!
# Keys that expire

A store of keys, each with the token of its owner and the instant at which it expires. At that
instant the key counts as absent, whether or not it is still kept.
-/

namespace EdgeGateway.Lease

/-- A key that was taken: by whom, and until when (in nanoseconds). -/
structure Entry where
  token : String
  expires : Nat
  deriving DecidableEq, Inhabited

/-- The keys that were taken. -/
structure Store where
  entries : KeyMap Entry
  deriving DecidableEq, Inhabited

namespace Store

def empty : Store := ⟨.empty⟩

/-- The entry has not expired. -/
def Entry.live (e : Entry) (now : Nat) : Bool := now < e.expires

/-- Takes the key unless a live entry holds it; tells whether it did. -/
def setIfAbsent (s : Store) (now : Nat) (key token : String) (ttl : Duration) : Bool × Store :=
  let taken := ⟨s.entries.insert key ⟨token, now + ttl.nanos⟩⟩
  match s.entries.get? key with
  | some e => if Entry.live e now then (false, s) else (true, taken)
  | none => (true, taken)

/-- Frees the key if the token's live entry holds it; tells whether it did. An expired entry goes
in any case. -/
def deleteIfOwner (s : Store) (now : Nat) (key token : String) : Bool × Store :=
  match s.entries.get? key with
  | none => (false, s)
  | some e =>
    if Entry.live e now then
      if e.token = token then (true, ⟨s.entries.erase key⟩) else (false, s)
    else (false, ⟨s.entries.erase key⟩)

end Store
end EdgeGateway.Lease

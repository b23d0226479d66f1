import EdgeGateway.Blacklist.Expiries
import EdgeGateway.Json.Decode
import EdgeGateway.Json.Printer

/-!
# Blacklist entries as JSON

An entry is an address with its expiry, in milliseconds; an expiry of zero is none.
-/

namespace EdgeGateway.Blacklist

open Json

/-- An entry of the blacklist as it is told to others. -/
structure Entry where
  ip : String
  expiry : UInt64
  deriving DecidableEq, Inhabited

namespace Entry

/-- The fields of an entry that have been read. -/
structure Draft where
  ip : Option String := none
  expiry : Option UInt64 := none

/-- An integer of 64 bits without a sign. -/
def uint64 (t : Tree) : Decoded UInt64 :=
  (Decode.integer 0 0xFFFFFFFFFFFFFFFF t).map fun i => i.toNat.toUInt64

/-- Reads one member of an entry. -/
def Draft.field (d : Draft) (key : String) (t : Tree) : Decoded Draft :=
  match key with
  | "ip" => return { d with ip := ← Decode.once d.ip (Decode.text t) }
  | "expiryEpochMillis" => return { d with expiry := ← Decode.once d.expiry (uint64 t) }
  | _ => Decode.ignore d t

def ofTree (t : Tree) : Decoded Entry := do
  let d ← Decode.record ["ip", "expiryEpochMillis"] 2 Draft.field {} t
  return ⟨← Decode.require "ip" d.ip, ← Decode.require "expiryEpochMillis" d.expiry⟩

def toTree (e : Entry) : Tree :=
  .ofMembers [("ip", .str e.ip), ("expiryEpochMillis", .int e.expiry.toNat)]

end Entry
end EdgeGateway.Blacklist

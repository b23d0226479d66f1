import EdgeGateway.Blacklist.Expiries
import EdgeGateway.Blacklist.Listing
import EdgeGateway.Refresh.Cell

/-!
# The blacklist

An address is listed statically, by a list that is loaded again when its time is over, or
dynamically, by an entry that may expire. The static list is looked at first, and an old one is
served while its source fails. Both lists hold canonical texts only.
-/

namespace EdgeGateway

open Blacklist

/-- The static list with its source, and the dynamic entries. -/
structure Blacklist where
  source : Source
  window : Duration
  fixed : Refresh.Cell AddressSet
  dynamic : Expiries
  deriving Inhabited

namespace Blacklist

/-- The readings of the two clocks: of the time of day, for expiries, and of the one that tells
when the static list is due. -/
structure Readings where
  wall : UInt64
  refresh : UInt64
  deriving DecidableEq, Inhabited

/-- Which list an address is on. -/
inductive Listed
  | static
  | dynamic
  deriving DecidableEq, Inhabited

def Listed.name : Listed → String
  | static => "static"
  | dynamic => "dynamic"

/-- A blacklist that has loaded nothing. -/
def new (source : Source) (window : Duration) : Blacklist :=
  ⟨source, window, .initial .empty, .empty⟩

/-- A blacklist without static addresses. -/
def empty : Blacklist := new (.fixed []) (.ofSeconds 3600)

/-- The text under which an address is kept; a text that is no address stands for itself. -/
def key (ip : String) : String := (canonical? ip.toList).getD ip

/-- The static addresses, loaded if they are due. -/
def readFixed (b : Blacklist) (refresh : UInt64) : AddressSet × Blacklist :=
  let (r, cell) := b.fixed.read .serveStale b.window refresh b.source.load
  match r with
  | .ok ips => (ips, { b with fixed := cell })
  | .error _ => (b.fixed.value, { b with fixed := cell })

/-- Which list an address is on; `meanwhile` is what others do to the dynamic entries while the
look-up has seen an entry and not yet judged it. -/
def containsDuring (b : Blacklist) (ip : String) (at_ : Readings)
    (meanwhile : Expiries → Expiries) : Option Listed × Blacklist :=
  let ip := key ip
  let (ips, b) := b.readFixed at_.refresh
  if ips.contains ip then (some .static, b)
  else
    let (listed, d) := lookUp b.dynamic ip at_.wall meanwhile
    (if listed then some .dynamic else none, { b with dynamic := d })

/-- Which list an address is on. -/
def contains (b : Blacklist) (ip : String) (at_ : Readings) : Option Listed × Blacklist :=
  b.containsDuring ip at_ id

/-- Lists an address until a reading of the clock, or for ever. -/
def add (b : Blacklist) (ip : String) (expiry : UInt64) : Except Failure Blacklist :=
  match canonical? ip.toList with
  | some ip => .ok { b with dynamic := b.dynamic.insert ip expiry }
  | none => .error (.invalidAddress ip)

/-- The expiry of an entry that lasts a while: never zero. The while counts in whole milliseconds
of 64 bits. -/
def expiryAfter (now : UInt64) (d : Duration) : UInt64 :=
  max 1 (saturatingAdd now d.millis.toUInt64)

/-- Lists an address for a while. -/
def addFor (b : Blacklist) (ip : String) (now : UInt64) (d : Duration) : Except Failure Blacklist :=
  b.add ip (expiryAfter now d)

/-- Takes an address off the dynamic list; tells whether it was on it. -/
def remove (b : Blacklist) (ip : String) : Bool × Blacklist :=
  let ip := key ip
  (b.dynamic.contains ip, { b with dynamic := b.dynamic.erase ip })

/-- The dynamic entries that have not expired, by the text of their address. -/
def entries (b : Blacklist) (now : UInt64) : List (String × UInt64) :=
  b.dynamic.entries.filter fun e => !isExpired e.2 now

/-- The static addresses as they were last loaded, in order. -/
def fixedEntries (b : Blacklist) : List String := b.fixed.value.keys

/-- Lists the addresses of a file for ever; without a file there are none. -/
def bootstrap (b : Blacklist) (path : String) (f : File) : Except Failure (Nat × Blacklist) :=
  match f, f.text? with
  | .missing, _ => .ok (0, b)
  | _, none => .error (.unreadableBootstrap path)
  | _, some t =>
    let ips := addresses t.toList
    .ok (ips.length, { b with dynamic := ips.foldl (fun d ip => d.insert ip 0) b.dynamic })

/-- Loads the static list now; the answer is its size. -/
def reload (b : Blacklist) (refresh : UInt64) : Except Failure Nat × Blacklist :=
  let (r, cell) := b.fixed.invalidate.read .failing b.window refresh b.source.load
  (r.map KeyMap.size, { b with fixed := cell })

end Blacklist
end EdgeGateway

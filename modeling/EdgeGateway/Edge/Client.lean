import EdgeGateway.Http.Header
import EdgeGateway.Net.Address
import EdgeGateway.Text.Blank

/-!
# Who is calling

The address of a client is taken from the header that a trusted proxy sets, else from the first
hop of the forwarded-for chain, else from the connection. A header counts only if its first value
is readable and holds an address as it stands, blanks around it aside.
-/

namespace EdgeGateway.Edge

open Http

/-- The headers that may tell the address of a client. -/
structure AddressHeaders where
  proxy : String
  forwardedFor : String
  deriving DecidableEq, Inhabited

/-- The usual names of these headers. -/
def AddressHeaders.standard : AddressHeaders := ⟨"X-Real-IP", "X-Forwarded-For"⟩

/-- Where the address of a client was found. -/
inductive Origin
  | proxyHeader
  | forwardedFor
  | connection
  deriving DecidableEq, Inhabited

/-- The address of a client, as it was written, and where it was found. -/
structure Client where
  address : List Char
  origin : Origin
  deriving DecidableEq, Inhabited

/-- The text of the first value of a header; a name that no header can have finds nothing. -/
def headerText? (h : Headers) (name : String) : Option (List Char) :=
  (headerName? name).bind h.text?

/-- A control character. -/
def isControl (c : Char) : Bool := c.toNat < 0x20 || (0x7F ≤ c.toNat && c.toNat < 0xA0)

/-- The text is an address, with nothing around it. -/
def isAddress (cs : List Char) : Bool :=
  !cs.isEmpty && !(cs.any fun c => isControl c || Text.isBlank c) && (Address.parse? cs).isSome

/-- The first hop of a forwarded-for chain. -/
def firstHop (chain : List Char) : List Char := Text.trim (chain.takeWhile (· != ','))

/-- The address that the proxy header tells. -/
def fromProxy? (names : AddressHeaders) (h : Headers) : Option (List Char) :=
  ((headerText? h names.proxy).map Text.trim).filter isAddress

/-- The address that the forwarded-for chain begins with. -/
def fromChain? (names : AddressHeaders) (h : Headers) : Option (List Char) :=
  ((headerText? h names.forwardedFor).map firstHop).filter isAddress

/-- The client of a request that came over a connection with `peer`. -/
def Client.resolve (names : AddressHeaders) (h : Headers) (peer : Address) : Client :=
  match fromProxy? names h with
  | some a => ⟨a, .proxyHeader⟩
  | none =>
    match fromChain? names h with
    | some a => ⟨a, .forwardedFor⟩
    | none => ⟨peer.render, .connection⟩

end EdgeGateway.Edge

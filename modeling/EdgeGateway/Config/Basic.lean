import EdgeGateway.Blacklist.Listing
import EdgeGateway.Edge.Filter
import EdgeGateway.Time.Duration

/-!
# The configuration of a gateway

A configuration has a section for each part of the gateway. Whatever a configuration file does not
set has the value given here.
-/

namespace EdgeGateway.Config

/-- The listeners, and the engine behind the gateway that takes the routes which do not name a web
server. -/
structure Server where
  adminAddress : String := "127.0.0.1:9091"
  gatewayAddress : String := "0.0.0.0:8080"
  engine : String := "http://127.0.0.1:9000"
  deriving DecidableEq, Inhabited

/-- The file of the route store; `:memory:` keeps it in memory. -/
structure Store where
  databasePath : String := "aegis-gateway.db"
  deriving DecidableEq, Inhabited

/-- How nodes tell each other of changes. Without a server, changes stay in this node; the lock key
elects the node that asks for the periodic reload. -/
structure Sync where
  natsUrl : Option String := none
  subject : String := "aegis.gateway.routes"
  reloadSeconds : UInt64 := 300
  reloadLockKey : String := "aegis:gateway:route-reload"
  deriving DecidableEq, Inhabited

/-- The server of the locks that all nodes see. -/
structure Redis where
  url : Option String := none
  deriving DecidableEq, Inhabited

/-- How callers are identified, and the headers that say so. Without a key no token is valid. -/
structure Auth where
  publicKeyPath : Option String := none
  algorithm : String := "RS256"
  issuer : Option String := none
  leewaySeconds : UInt64 := 30
  filter : Edge.FilterConfig := .standard
  deriving DecidableEq, Inhabited

/-- The blacklist: static addresses, either given here or in a file that is read again and again,
and a file that is read once. -/
structure Blacklist where
  staticAddresses : List String := []
  staticFile : Option String := none
  bootstrapFile : String := "blacklist.txt"
  refreshSeconds : UInt64 := 60
  deriving DecidableEq, Inhabited

/-- The place of this node among those that issue request ids. -/
structure IdGenerator where
  worker : UInt64 := 0
  datacenter : UInt64 := 0
  deriving DecidableEq, Inhabited

/-- The time between two periodic reloads. -/
def Sync.reloadInterval (s : Sync) : Duration := .ofSeconds s.reloadSeconds.toNat

/-- How long the static addresses are good for. -/
def Blacklist.window (b : Blacklist) : Duration := .ofSeconds b.refreshSeconds.toNat

end Config

/-- The configuration of a node. -/
structure Config where
  server : Config.Server := {}
  store : Config.Store := {}
  sync : Config.Sync := {}
  redis : Config.Redis := {}
  auth : Config.Auth := {}
  blacklist : Config.Blacklist := {}
  idGenerator : Config.IdGenerator := {}
  deriving DecidableEq, Inhabited

end EdgeGateway

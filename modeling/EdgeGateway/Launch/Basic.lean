import EdgeGateway.Blacklist.Basic
import EdgeGateway.Config.Document
import EdgeGateway.Config.Fault
import EdgeGateway.Edge.Filter
import EdgeGateway.Launch.Arguments
import EdgeGateway.Launch.LogFilter
import EdgeGateway.RequestId.Generator
import EdgeGateway.Token.Verifier

/-!
# Starting a node

A start reads the configuration and checks it, then opens the route store, connects to the servers
that are configured, and builds the blacklist, the verifier, the id generator and the filter. The
first step that fails ends the start and is reported. An unreadable static blacklist does not: it
is loaded again later.
-/

namespace EdgeGateway.Launch

open Blacklist (File)

/-- What a start finds around it: files by their paths, and what servers say to a connection: `none`
if they take it, and else the text of the failure. -/
structure Surroundings where
  file : String → File
  connectNats : String → Option String
  connectRedis : String → Option String

/-- Why a start failed. -/
inductive Failure
  | config (path : String)
  | logFilter (f : LogFilter.Fault)
  | invalid (f : Config.Fault)
  | store (path : String)
  | nats
  | redis (message : String)
  | blacklist (f : Blacklist.Failure)
  | verifier (e : Token.VerifierError)
  | ids (e : GatewayError)
  | header (e : Edge.InvalidHeaderName)
  deriving DecidableEq, Inhabited

def Failure.message : Failure → String
  | config path => s!"Failed to load config {path}"
  | logFilter f => f.message
  | invalid f => f.message
  | store path => s!"Failed to open route store {path}"
  | nats => "Failed to connect to NATS server"
  | redis m => m
  | blacklist f => f.message
  | verifier e => e.message
  | ids e => e.message
  | header e => e.message

/-- A node that is ready to serve. The filter has no verifier yet, because what it says depends on
the present. -/
structure Ready where
  config : Config
  blacklist : Blacklist
  verifier : Option Token.Verifier
  ids : RequestId.Generator
  filter : Edge.Filter

/-- The filter at a second since 1970. -/
def Ready.filterAt (r : Ready) (now : UInt64) : Edge.Filter :=
  { r.filter with verify := r.verifier.map fun v => v.verify now }

/-! ### The steps -/

/-- The configuration of a file, or the usual one. -/
def loadConfig (w : Surroundings) : Option String → Except Failure Config
  | none => .ok {}
  | some path =>
    match (w.file path).text?.bind Config.parse? with
    | some c => .ok c
    | none => .error (.config path)

/-- The directory of a path. -/
def directory (path : List Char) : List Char :=
  if path.contains '/' then
    let front := (path.reverse.dropWhile (· != '/')).reverse
    if front.length ≤ 1 then front else front.dropLast
  else ['.']

/-- The bytes that a database file begins with. -/
def databaseMark : List UInt8 := "SQLite format 3\x00".toUTF8.toList

/-- A database can be kept under a path: in memory, in a database file, or in a new file of a
directory that is there. -/
def canOpen (w : Surroundings) (path : String) : Bool :=
  path == "" || path == ":memory:" ||
    match w.file path with
    | .missing => w.file (String.ofList (directory path.toList)) == .directory
    | .directory => false
    | .contents b => b.isEmpty || databaseMark.isPrefixOf b

/-- The blacklist with its bootstrap file and, if they can be loaded, its static addresses. The
clock of its refreshes begins with the node. -/
def loadBlacklist (w : Surroundings) (c : Config.Blacklist) :
    Except Blacklist.Failure Blacklist := do
  let source : Blacklist.Source := match c.staticFile with
    | some path => .file path (w.file path)
    | none => .fixed c.staticAddresses
  let (_, b) ← (Blacklist.new source c.window).bootstrap c.bootstrapFile (w.file c.bootstrapFile)
  return (b.reload 0).2

/-- The verifier of a key file; without one there is none. -/
def loadVerifier (w : Surroundings) (c : Config.Auth) :
    Except Token.VerifierError (Option Token.Verifier) :=
  match c.publicKeyPath with
  | none => .ok none
  | some path =>
    match w.file path with
    | .contents b =>
      (Token.Verifier.ofKeyFile c.algorithm b c.issuer c.leewaySeconds).map some
    | _ => .error (.unreadable path)

/-- What a connection to the lock server comes to when nothing answers: the address must name a
server of that kind for it to be tried. -/
def redisFailure (url : String) : Option String :=
  let scheme := String.ofList ((url.toList.takeWhile (· != ':')).map Char.toLower)
  if ["redis", "rediss", "unix", "redis+unix"].contains scheme && url.toList.contains ':' then
    some "Connection refused (os error 111)"
  else some "Redis URL did not parse- InvalidClientConfig"

/-- Connects to the servers that are configured. -/
def connect (w : Surroundings) (c : Config) : Except Failure Unit := do
  if (c.sync.natsUrl.bind w.connectNats).isSome then throw .nats
  match c.redis.url.bind w.connectRedis with
  | some m => throw (.redis m)
  | none => return ()

/-- Starts a node. -/
def start (w : Surroundings) (o : Options) : Except Failure Ready := do
  let c ← loadConfig w o.config
  match o.logLevel.bind LogFilter.fault? with
  | some f => throw (.logFilter f)
  | none => pure ()
  match c.fault? with
  | some f => throw (.invalid f)
  | none => pure ()
  if !canOpen w c.store.databasePath then throw (.store c.store.databasePath)
  connect w c
  let b ← (loadBlacklist w c.blacklist).mapError .blacklist
  let v ← (loadVerifier w c.auth).mapError .verifier
  let ids ← (RequestId.Generator.create c.idGenerator.worker c.idGenerator.datacenter).mapError .ids
  let filter ← (Edge.Filter.new c.auth.filter none).mapError .header
  return ⟨c, b, v, ids, filter⟩

/-! ### The program -/

/-- What a run of the program leaves: its exit code and what it has printed. -/
structure Report where
  exit : UInt8
  out : String
  error : String
  deriving DecidableEq, Inhabited

/-- Runs the program up to the point where it serves. -/
def run (w : Surroundings) (args : List String) : Report :=
  match Options.parse args with
  | .error .help => ⟨0, helpText, ""⟩
  | .error .version => ⟨0, versionText, ""⟩
  | .error (.error e) => ⟨2, "", e.report⟩
  | .ok o =>
    match start w o with
    | .error f => ⟨1, "", s!"Error: {f.message}\n"⟩
    | .ok _ => ⟨0, "", ""⟩

/-! ### What a start reads -/

/-- The files that a configuration names, and the directory of the database. -/
def configuredPaths (c : Config) : List String :=
  [c.store.databasePath, String.ofList (directory c.store.databasePath.toList),
    c.blacklist.bootstrapFile] ++ c.blacklist.staticFile.toList ++ c.auth.publicKeyPath.toList

end EdgeGateway.Launch

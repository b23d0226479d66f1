import EdgeGateway.Config.Basic
import EdgeGateway.RequestId.Layout
import EdgeGateway.Text.Blank
import EdgeGateway.Token.Algorithm

/-!
# Checking a configuration

A configuration is checked before a node starts. The first fault in the order of the checks is the
one that is reported.
-/

namespace EdgeGateway.Config

/-- What is wrong with a configuration. -/
inductive Fault
  | worker (n : UInt64)
  | datacenter (n : UInt64)
  | reloadInterval
  | subject
  | refresh
  | algorithm (e : Token.AlgorithmError)
  | adminAddress (text : String)
  | gatewayAddress (text : String)
  deriving DecidableEq, Inhabited

def Fault.message : Fault → String
  | worker n => s!"Invalid worker_id {n}: must be <= {RequestId.maxPlace}"
  | datacenter n => s!"Invalid datacenter_id {n}: must be <= {RequestId.maxPlace}"
  | reloadInterval => "Invalid sync reload_interval_secs: must be > 0"
  | subject => "Invalid sync subject: cannot be empty"
  | refresh => "Invalid blacklist refresh_secs: must be > 0"
  | algorithm e => e.message
  | adminAddress text => s!"Invalid admin_addr '{text}': invalid socket address syntax"
  | gatewayAddress text => s!"Invalid gateway_addr '{text}': invalid socket address syntax"

/-- The text is an address with the number of a service. -/
def isSocket (text : String) : Bool := (Address.parseSocket? text.toList).isSome

/-- The first fault of a configuration. -/
def fault? (c : Config) : Option Fault :=
  if RequestId.maxPlace < c.idGenerator.worker then some (.worker c.idGenerator.worker)
  else if RequestId.maxPlace < c.idGenerator.datacenter then
    some (.datacenter c.idGenerator.datacenter)
  else if c.sync.reloadSeconds = 0 then some .reloadInterval
  else if (Text.trim c.sync.subject.toList).isEmpty then some .subject
  else if c.blacklist.refreshSeconds = 0 then some .refresh
  else match Token.Algorithm.parse c.auth.algorithm with
    | .error e => some (.algorithm e)
    | .ok _ =>
      if !isSocket c.server.adminAddress then some (.adminAddress c.server.adminAddress)
      else if !isSocket c.server.gatewayAddress then some (.gatewayAddress c.server.gatewayAddress)
      else none

end EdgeGateway.Config

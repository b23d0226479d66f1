/-!
# Failures

Why an operation of the gateway fails, one constructor per cause. A failure is the caller's when
the request itself is at fault.
-/

namespace EdgeGateway

/-- Why the route store fails. -/
inductive StoreError
  | duplicate (id : String)
  | database (detail : String)
  | serialization (detail : String)
  | task (detail : String)
  deriving DecidableEq, Inhabited

namespace StoreError

def message : StoreError → String
  | duplicate id => s!"Unique constraint violated for route id: {id}"
  | database detail => s!"Route store database error: {detail}"
  | serialization detail => s!"Route store serialization error: {detail}"
  | task detail => s!"Route store task failed: {detail}"

end StoreError

/-- Which part of a generator's identity is out of range. -/
inductive GeneratorField
  | worker
  | datacenter
  deriving DecidableEq, Inhabited

def GeneratorField.name : GeneratorField → String
  | worker => "worker_id"
  | datacenter => "datacenter_id"

/-- Why an operation of the gateway fails. -/
inductive GatewayError
  | duplicateId (id : String)
  | notFound (id : String)
  | noRoutes
  | invalidRoute (reason : String)
  | invalidLease (reason : String)
  | clockBackwards (last now : UInt64)
  | invalidGenerator (field : GeneratorField) (value : UInt64)
  | broadcast (reason : String)
  | store (e : StoreError)
  deriving DecidableEq, Inhabited

namespace GatewayError

def message : GatewayError → String
  | duplicateId id => s!"Route id already exists: {id}"
  | notFound id => s!"Route not found: {id}"
  | noRoutes => "No routes defined in the route store"
  | invalidRoute reason => s!"Invalid route definition: {reason}"
  | invalidLease reason => s!"Invalid lock argument: {reason}"
  | clockBackwards last now =>
    s!"Clock moved backwards: last id at {last}ms, clock now reads {now}ms"
  | invalidGenerator field value => s!"Invalid {field.name}: {value} (must be within 0..=31)"
  | broadcast reason => s!"Route broadcast failed: {reason}"
  | store e => e.message

/-- The failure is the caller's and not the gateway's. -/
def isClientError : GatewayError → Bool
  | duplicateId _ | notFound _ | noRoutes | invalidRoute _ | invalidLease _ => true
  | _ => false

/-- The HTTP status that reports the failure. -/
def status : GatewayError → Nat
  | duplicateId _ => 409
  | notFound _ => 404
  | noRoutes => 422
  | invalidRoute _ | invalidLease _ => 400
  | _ => 500

end GatewayError
end EdgeGateway

import EdgeGateway.Http.Header
import EdgeGateway.Http.Uri

/-!
# Requests and responses
-/

namespace EdgeGateway.Http

/-- A request with its whole body. -/
structure Request where
  method : String
  uri : Uri
  headers : Headers
  body : List UInt8
  deriving DecidableEq, Inhabited

/-- A response with the type of its content. -/
structure Response where
  status : Nat
  contentType : String
  body : String
  deriving DecidableEq, Inhabited

end EdgeGateway.Http

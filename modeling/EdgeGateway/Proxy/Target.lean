import EdgeGateway.Http.Uri
import EdgeGateway.Route.Basic

/-!
# Where a request is sent

A request whose route begins with `http://` is sent there directly, and any other to the engine
behind the gateway. The target is the base without the slashes at its end, followed by the path and
the query of the request.
-/

namespace EdgeGateway

/-- The text begins with `http://`. -/
def isDirectUri (uri : List Char) : Bool := uri.take 7 == "http://".toList

namespace Route

/-- Requests of the route are sent to its own destination. -/
def isDirect (r : Route) : Bool := isDirectUri r.uri.toList

/-- The base of the targets of the route. -/
def base (r : Route) (engine : List Char) : List Char :=
  if r.isDirect then r.uri.toList else engine

end Route

namespace Proxy

/-- The text without the slashes at its end. -/
def trimSlashes (cs : List Char) : List Char := (cs.reverse.dropWhile (· == '/')).reverse

/-- The target of a request with the given path and query; `none` if it is no target. -/
def target? (r : Route) (engine pathAndQuery : List Char) : Option Http.Uri :=
  Http.Uri.parse? (trimSlashes (r.base engine) ++ pathAndQuery)

end Proxy
end EdgeGateway

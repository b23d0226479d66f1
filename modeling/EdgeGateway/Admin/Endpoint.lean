/-!
# Endpoints

What a request to the admin interface asks for, by its method and its path. A fixed path goes
before one with an id in it, so a route whose id is `reload` cannot be read alone. An id is the
text up to the next slash; what follows it does not count.
-/

namespace EdgeGateway.Admin

/-- What is asked for. -/
inductive Endpoint
  | health
  | listRoutes
  | reload
  | broadcastReload
  | addRoute
  | updateRoute
  | getRoute (id : String)
  | deleteRoute (id : String)
  | listBlacklist
  | addAddress
  | reloadBlacklist
  | removeAddress (ip : String)
  | unknown
  deriving DecidableEq, Inhabited

namespace Endpoint

/-- The segment of a path that follows `front`, if it is not empty. -/
def segment? (front path : String) : Option String :=
  let rest := path.toList.drop front.toList.length
  let segment := rest.takeWhile (· != '/')
  if front.toList.isPrefixOf path.toList && !segment.isEmpty then some (String.ofList segment)
  else none

/-- The endpoint with a segment of the path as its argument. -/
def withSegment (front path : String) (f : String → Endpoint) : Endpoint :=
  ((segment? front path).map f).getD unknown

/-- The endpoint of a method and a path. -/
def of (method path : String) : Endpoint :=
  match method, path with
  | "GET", "/health" => health
  | "GET", "/routes" => listRoutes
  | "GET", "/routes/reload" => reload
  | "POST", "/routes/broadcast-reload" => broadcastReload
  | "POST", "/routes" => addRoute
  | "PUT", "/routes" => updateRoute
  | "GET", "/blacklist" => listBlacklist
  | "POST", "/blacklist" => addAddress
  | "PUT", "/blacklist/reload" => reloadBlacklist
  | "GET", p => withSegment "/routes/" p getRoute
  | "DELETE", p =>
    if (segment? "/routes/" p).isSome then withSegment "/routes/" p deleteRoute
    else withSegment "/blacklist/" p removeAddress
  | _, _ => unknown

end Endpoint
end EdgeGateway.Admin

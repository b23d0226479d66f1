import EdgeGateway.Blacklist.Basic
import EdgeGateway.Edge.Client
import EdgeGateway.Http.Message
import EdgeGateway.Token.Verdict

/-!
# The edge filter

Every request passes the filter before its route is looked up. A blacklisted client is turned away.
A token, from the authorization header or else from a cookie, decides who the caller is; a request
with a bad token goes on without a name. Then the trust headers are set anew: what the client
said about itself is dropped, and the gateway appends its marker to the forwarded-for chain and to
the referer.
-/

namespace EdgeGateway.Edge

open Http Token

/-- What a filter is configured with. -/
structure FilterConfig where
  authHeader : String
  tokenCookie : String
  identityHeader : String
  marker : String
  addressHeaders : AddressHeaders
  deriving DecidableEq, Inhabited

/-- The usual names. -/
def FilterConfig.standard : FilterConfig :=
  ⟨"Authorization", "access_token", "X-User-Id", "aegis-gateway", .standard⟩

/-- Who the caller is. -/
inductive Identity
  | verified (subject : String)
  | expired
  | invalid
  | anonymous
  deriving DecidableEq, Inhabited

namespace Identity

/-- The caller that a verdict on a token tells of. -/
def ofVerdict : Verdict → Identity
  | .valid s => verified s
  | .expired => expired
  | .invalid => invalid

def subject? : Identity → Option String
  | verified s => some s
  | _ => none

/-- What the identity header says. -/
def headerValue? : Identity → Option String
  | verified s => some s
  | expired => some "anonymous:expired"
  | invalid => some "anonymous:invalid"
  | anonymous => none

end Identity

/-- What the filter found out about a request. -/
structure Context where
  client : Client
  identity : Identity
  deriving DecidableEq, Inhabited

/-- A filter: its configuration, the header names in it in lower case, and how tokens are verified;
without a verifier every token is invalid. -/
structure Filter where
  config : FilterConfig
  authHeader : String
  identityHeader : String
  proxyHeader : String
  chainHeader : String
  verify : Option (List Char → Verdict)

/-- A configured name that no header can have. -/
structure InvalidHeaderName where
  name : String
  deriving DecidableEq, Inhabited

def InvalidHeaderName.message (e : InvalidHeaderName) : String := s!"Invalid header name: {e.name}"

namespace Filter

/-- The name of a header in lower case. -/
def nameOf (name : String) : Except InvalidHeaderName String :=
  match headerName? name with
  | some n => .ok n
  | none => .error ⟨name⟩

/-- A filter of a configuration. -/
def new (config : FilterConfig) (verify : Option (List Char → Verdict)) :
    Except InvalidHeaderName Filter :=
  return {
    config
    authHeader := ← nameOf config.authHeader
    identityHeader := ← nameOf config.identityHeader
    proxyHeader := ← nameOf config.addressHeaders.proxy
    chainHeader := ← nameOf config.addressHeaders.forwardedFor
    verify }

/-! ### The token -/

/-- The text before the first `c` and the text after it. -/
def splitOnce? (c : Char) (cs : List Char) : Option (List Char × List Char) :=
  let front := cs.takeWhile (· != c)
  match cs.drop front.length with
  | [] => none
  | _ :: rest => some (front, rest)

/-- The token of an authorization header of the `Bearer` scheme, if it is not empty. -/
def bearer? (text : List Char) : Option (List Char) := do
  let (scheme, token) ← splitOnce? ' ' (Text.trim text)
  if scheme.map Char.toLower == "bearer".toList then
    let token := Text.trim token
    if token.isEmpty then none else some token
  else none

/-- The pairs of name and value of a cookie line. -/
def cookiePairs (line : List Char) : List (List Char × List Char) :=
  (line.splitOn ';').filterMap fun pair => splitOnce? '=' (Text.trim pair)

/-- The first value that is not empty of a cookie, over all readable lines. -/
def cookie? (h : Headers) (name : String) : Option (List Char) :=
  let pairs := ((h.values "cookie").filterMap HeaderValue.text?).flatMap cookiePairs
  (pairs.find? fun p => p.1 == name.toList && !p.2.isEmpty).map (·.2)

/-- The token of a request. -/
def token? (f : Filter) (h : Headers) : Option (List Char) :=
  ((h.text? f.authHeader).bind bearer?).or (cookie? h f.config.tokenCookie)

/-- The caller that the token of a request tells of. -/
def identify (f : Filter) (h : Headers) : Identity :=
  match f.token? h, f.verify with
  | none, _ => .anonymous
  | some _, none => .invalid
  | some t, some verify => .ofVerdict (verify t)

/-! ### The trust headers -/

/-- Replaces what the client said about its identity. -/
def stampIdentity (f : Filter) (identity : Identity) (h : Headers) : Headers :=
  let h := h.remove f.identityHeader
  match identity.headerValue? with
  | some v => h.setText f.identityHeader v.toList
  | none => h

/-- Appends the gateway to the forwarded-for chain; without one the client begins it. -/
def extendChain (f : Filter) (client : List Char) (h : Headers) : Headers :=
  let marker := ", ".toList ++ f.config.marker.toList
  h.setText f.chainHeader <| match (h.text? f.chainHeader).map Text.trim with
    | some (c :: cs) => c :: cs ++ marker
    | _ => client ++ marker

/-- Tells the client's address, unless a proxy header is there. -/
def stampAddress (f : Filter) (client : List Char) (h : Headers) : Headers :=
  if h.contains f.proxyHeader then h else h.setText f.proxyHeader client

/-- Appends the gateway to the referer, if there is one. -/
def extendReferer (f : Filter) (h : Headers) : Headers :=
  match h.text? "referer" with
  | some r => h.setText "referer" (r ++ ',' :: f.config.marker.toList)
  | none => h

/-- Sets the trust headers anew. -/
def stamp (f : Filter) (client : List Char) (identity : Identity) (h : Headers) : Headers :=
  f.extendReferer (f.stampAddress client (f.extendChain client (f.stampIdentity identity h)))

/-! ### The decision -/

/-- What becomes of a request. -/
inductive Outcome
  | deny
  | forward (request : Request) (context : Context)
  deriving DecidableEq, Inhabited

/-- The response to a client that is turned away. -/
def denial : Response :=
  ⟨403, "application/json", "\x7b\"success\":false,\"message\":\"Access denied\"\x7d"⟩

/-- Filters a request that came over a connection with `peer`. -/
def filter (f : Filter) (r : Request) (peer : Address) (b : Blacklist)
    (at_ : Blacklist.Readings) : Outcome × Blacklist :=
  let client := Client.resolve f.config.addressHeaders r.headers peer
  match b.contains (String.ofList client.address) at_ with
  | (some _, b) => (.deny, b)
  | (none, b) =>
    let identity := f.identify r.headers
    (.forward { r with headers := f.stamp client.address identity r.headers } ⟨client, identity⟩, b)

end Filter
end EdgeGateway.Edge

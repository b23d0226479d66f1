import EdgeGateway.Config.Basic
import EdgeGateway.Toml.Value
import EdgeGateway.Toml.Printer

/-!
# The items of a section

An item of a section has a name, and is read from a value and written as one. The items of a
section are listed in the order in which they are written; a section that is given as a list of
values takes them in this order too.
-/

namespace EdgeGateway.Config

open Toml

/-- An item of a section `S`; one that is not set is not written. -/
structure Item (S : Type) where
  name : String
  read : Value → S → Option S
  write : S → Option Setting

namespace Item

variable {S : Type}

def text (name : String) (get : S → String) (set : S → String → S) : Item S where
  name := name
  read
    | .text v, s => some (set s v)
    | _, _ => none
  write s := some (.text (get s))

/-- A text that may be left out. -/
def text? (name : String) (get : S → Option String) (set : S → String → S) : Item S where
  name := name
  read
    | .text v, s => some (set s v)
    | _, _ => none
  write s := (get s).map .text

def number (name : String) (get : S → UInt64) (set : S → UInt64 → S) : Item S where
  name := name
  read
    | .integer i, s => if 0 ≤ i ∧ i < UInt64.size then some (set s i.toNat.toUInt64) else none
    | _, _ => none
  write s := some (.number (get s))

/-- The texts of a list of nothing else. -/
def texts? (vs : List Value) : Option (List String) :=
  vs.mapM fun
    | .text v => some v
    | _ => none

def texts (name : String) (get : S → List String) (set : S → List String → S) : Item S where
  name := name
  read
    | .array vs, s => (texts? vs).map (set s)
    | _, _ => none
  write s := some (.texts (get s))

/-- Reads the items that a section has and leaves the others as they are. A date is a section
without any known item. -/
def readAll (items : List (Item S)) (s : S) : Value → Option S
  | .table _ es =>
    items.foldlM (fun s i =>
      match es.lookup i.name with
      | some v => i.read v s
      | none => some s) s
  | .array vs => (items.zip vs).foldlM (fun s (i, v) => i.read v s) s
  | .date => some s
  | _ => none

/-- All items of a section with their values. -/
def writeAll (items : List (Item S)) (s : S) : List (String × Option Setting) :=
  items.map fun i => (i.name, i.write s)

end Item

/-! ### The sections -/

open Item

def Server.items : List (Item Server) :=
  [text "admin_addr" adminAddress fun s v => { s with adminAddress := v },
    text "gateway_addr" gatewayAddress fun s v => { s with gatewayAddress := v },
    text "upstream" engine fun s v => { s with engine := v }]

def Store.items : List (Item Store) :=
  [text "database_path" databasePath fun s v => { s with databasePath := v }]

def Sync.items : List (Item Sync) :=
  [text? "nats_url" natsUrl fun s v => { s with natsUrl := v },
    text "subject" subject fun s v => { s with subject := v },
    number "reload_interval_secs" reloadSeconds fun s v => { s with reloadSeconds := v },
    text "reload_lock_key" reloadLockKey fun s v => { s with reloadLockKey := v }]

def Redis.items : List (Item Redis) := [text? "url" url fun s v => { s with url := v }]

def Auth.items : List (Item Auth) :=
  [text? "public_key_path" publicKeyPath fun s v => { s with publicKeyPath := v },
    text "algorithm" algorithm fun s v => { s with algorithm := v },
    text? "issuer" issuer fun s v => { s with issuer := v },
    number "leeway_secs" leewaySeconds fun s v => { s with leewaySeconds := v },
    text "auth_header" (·.filter.authHeader) fun s v => { s with filter.authHeader := v },
    text "token_cookie" (·.filter.tokenCookie) fun s v => { s with filter.tokenCookie := v },
    text "identity_header" (·.filter.identityHeader) fun s v =>
      { s with filter.identityHeader := v },
    text "proxy_header" (·.filter.addressHeaders.proxy) fun s v =>
      { s with filter.addressHeaders.proxy := v },
    text "forwarded_for_header" (·.filter.addressHeaders.forwardedFor) fun s v =>
      { s with filter.addressHeaders.forwardedFor := v },
    text "gateway_marker" (·.filter.marker) fun s v => { s with filter.marker := v }]

def Blacklist.items : List (Item Blacklist) :=
  [texts "static_ips" staticAddresses fun s v => { s with staticAddresses := v },
    text? "static_file" staticFile fun s v => { s with staticFile := v },
    text "bootstrap_file" bootstrapFile fun s v => { s with bootstrapFile := v },
    number "refresh_secs" refreshSeconds fun s v => { s with refreshSeconds := v }]

def IdGenerator.items : List (Item IdGenerator) :=
  [number "worker_id" worker fun s v => { s with worker := v },
    number "datacenter_id" datacenter fun s v => { s with datacenter := v }]

end EdgeGateway.Config

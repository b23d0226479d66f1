import EdgeGateway.Config.Item
import EdgeGateway.Toml.Reader

/-!
# Configuration files

A configuration is written with all its sections and read back from them. Sections and items that
are not there have their usual values, and those that nobody knows are passed over.
-/

namespace EdgeGateway.Config

open Toml Item

/-- A section of a document, or its usual value. -/
def part? {S : Type} (es : Entries) (name : String) (items : List (Item S)) (usual : S) :
    Option S :=
  match es.lookup name with
  | some v => readAll items usual v
  | none => some usual

/-- The configuration that a document holds. -/
def ofEntries? (es : Entries) : Option Config := do
  return {
    server := ← part? es "server" Server.items {}
    store := ← part? es "store" Store.items {}
    sync := ← part? es "sync" Sync.items {}
    redis := ← part? es "redis" Redis.items {}
    auth := ← part? es "auth" Auth.items {}
    blacklist := ← part? es "blacklist" Blacklist.items {}
    idGenerator := ← part? es "id_generator" IdGenerator.items {} }

/-- Reads the text of a configuration file. -/
def parse? (text : String) : Option Config := (Toml.read? text).bind ofEntries?

/-- All sections with all their items. -/
def sections (c : Config) : List (String × List (String × Option Setting)) :=
  [("server", writeAll Server.items c.server),
    ("store", writeAll Store.items c.store),
    ("sync", writeAll Sync.items c.sync),
    ("redis", writeAll Redis.items c.redis),
    ("auth", writeAll Auth.items c.auth),
    ("blacklist", writeAll Blacklist.items c.blacklist),
    ("id_generator", writeAll IdGenerator.items c.idGenerator)]

/-- The text of a configuration file; it cannot be written with a number above what a signed
integer holds. -/
def text? (c : Config) : Option String :=
  Toml.write? (c.sections.map fun (name, items) =>
    ⟨name, items.filterMap fun (k, v) => v.map fun v => (k, v)⟩)

end EdgeGateway.Config

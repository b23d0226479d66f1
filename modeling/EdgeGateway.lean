import EdgeGateway.Admin.Basic
import EdgeGateway.Admin.Endpoint
import EdgeGateway.Admin.Reply
import EdgeGateway.Blacklist.Basic
import EdgeGateway.Blacklist.Entry
import EdgeGateway.Blacklist.Expiries
import EdgeGateway.Blacklist.Listing
import EdgeGateway.Cluster.Basic
import EdgeGateway.Cluster.Bus
import EdgeGateway.Cluster.Node
import EdgeGateway.Cluster.Timeline
import EdgeGateway.Config.Basic
import EdgeGateway.Config.Document
import EdgeGateway.Config.Fault
import EdgeGateway.Config.Item
import EdgeGateway.Crypto.Ecdsa
import EdgeGateway.Crypto.Ed25519
import EdgeGateway.Crypto.Modular
import EdgeGateway.Crypto.Rsa
import EdgeGateway.Crypto.Sha2
import EdgeGateway.Edge.Client
import EdgeGateway.Edge.Filter
import EdgeGateway.Error
import EdgeGateway.Guarded
import EdgeGateway.Http.Header
import EdgeGateway.Http.Message
import EdgeGateway.Http.Uri
import EdgeGateway.Json.Decode
import EdgeGateway.Json.Number
import EdgeGateway.Json.Printer
import EdgeGateway.Json.Token
import EdgeGateway.Json.Tree
import EdgeGateway.KeyMap
import EdgeGateway.Launch.Arguments
import EdgeGateway.Launch.Basic
import EdgeGateway.Launch.LogFilter
import EdgeGateway.Lease.Acquire
import EdgeGateway.Lease.Store
import EdgeGateway.Main
import EdgeGateway.Net.Address
import EdgeGateway.Proofs.Blacklist.Canonical
import EdgeGateway.Proofs.Cluster.Convergence
import EdgeGateway.Proofs.Cluster.History
import EdgeGateway.Proofs.Cluster.Node
import EdgeGateway.Proofs.Cluster.Repair
import EdgeGateway.Proofs.Cluster.Run
import EdgeGateway.Proofs.Cluster.Unordered
import EdgeGateway.Proofs.Edge.Denial
import EdgeGateway.Proofs.Edge.Identity
import EdgeGateway.Proofs.Http.Header
import EdgeGateway.Proofs.Http.Value
import EdgeGateway.Proofs.Json.Decode
import EdgeGateway.Proofs.Json.Literal
import EdgeGateway.Proofs.Json.RoundTrip
import EdgeGateway.Proofs.KeyMap
import EdgeGateway.Proofs.Lease.Attempts
import EdgeGateway.Proofs.Lease.Contest
import EdgeGateway.Proofs.Lease.Exclusion
import EdgeGateway.Proofs.Lease.Store
import EdgeGateway.Proofs.Net.Address
import EdgeGateway.Proofs.Proxy.Stamps
import EdgeGateway.Proofs.Proxy.Target
import EdgeGateway.Proofs.Proxy.Traffic
import EdgeGateway.Proofs.Refresh.History
import EdgeGateway.Proofs.Refresh.Invalidation
import EdgeGateway.Proofs.Refresh.SingleFlight
import EdgeGateway.Proofs.RequestId.Increasing
import EdgeGateway.Proofs.RequestId.Layout
import EdgeGateway.Proofs.Route.MatchOrder
import EdgeGateway.Proofs.Route.Pattern
import EdgeGateway.Proofs.Route.Rule
import EdgeGateway.Proofs.Route.Table
import EdgeGateway.Proofs.Store.Change
import EdgeGateway.Proofs.Store.Listing
import EdgeGateway.Proofs.Store.LostUpdate
import EdgeGateway.Proofs.Store.Row
import EdgeGateway.Proofs.Store.VersionedMap
import EdgeGateway.Proofs.Text.ByteOrder
import EdgeGateway.Proofs.Text.Digit
import EdgeGateway.Proofs.Time.Rfc3339
import EdgeGateway.Proxy.Basic
import EdgeGateway.Proxy.Target
import EdgeGateway.Refresh.Cell
import EdgeGateway.Refresh.Readers
import EdgeGateway.Refresh.Schedule
import EdgeGateway.RequestId.Generator
import EdgeGateway.RequestId.Layout
import EdgeGateway.Route.Basic
import EdgeGateway.Route.Codec
import EdgeGateway.Route.Event
import EdgeGateway.Route.Pattern
import EdgeGateway.Route.Rule
import EdgeGateway.Route.Table
import EdgeGateway.Store.Basic
import EdgeGateway.Store.Row
import EdgeGateway.Text.Base64
import EdgeGateway.Text.Blank
import EdgeGateway.Text.Digit
import EdgeGateway.Text.Quoted
import EdgeGateway.Text.Utf8
import EdgeGateway.Time.Date
import EdgeGateway.Time.Duration
import EdgeGateway.Time.Instant
import EdgeGateway.Time.Rfc3339
import EdgeGateway.Token.Algorithm
import EdgeGateway.Token.Armor
import EdgeGateway.Token.Claims
import EdgeGateway.Token.Der
import EdgeGateway.Token.Header
import EdgeGateway.Token.PublicKey
import EdgeGateway.Token.Verdict
import EdgeGateway.Token.Verifier
import EdgeGateway.Toml.Printer
import EdgeGateway.Toml.Reader
import EdgeGateway.Toml.Scalar
import EdgeGateway.Toml.Text
import EdgeGateway.Toml.Value
import EdgeGateway.Proofs.Route.Codec
import EdgeGateway.Proofs.Route.Event
import EdgeGateway.Proofs.Admin.Effects
import EdgeGateway.Proofs.Admin.Endpoint
import EdgeGateway.Proofs.Admin.Runs
import EdgeGateway.Proofs.Blacklist.LookUps
import EdgeGateway.Proofs.Blacklist.Spelling
import EdgeGateway.Proofs.Blacklist.Deadline
import EdgeGateway.Proofs.Edge.Chain
import EdgeGateway.Proofs.Refresh.Reads
import EdgeGateway.Proofs.RequestId.Fields
import EdgeGateway.Proofs.RequestId.Numbers
import EdgeGateway.Proofs.Route.Shortcut
import EdgeGateway.Proofs.Edge.NextHop
import EdgeGateway.Proofs.Edge.Token

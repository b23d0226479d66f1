import EdgeGateway.Cluster.Basic
import EdgeGateway.Lease.Acquire

/-!
# A cluster in time

Nodes may apply events as they come, and may reload at a fixed interval. With a lease, only the node
that wins it in an interval asks all nodes to reload, and the lease is left to expire before the
next round; without one, each node reloads by itself.
-/

namespace EdgeGateway

/-- A reload at a fixed interval: of which node, when the next one is due, and under which key the
nodes compete for it. -/
structure Periodic where
  node : Nat
  interval : Nat
  due : Nat
  key : Option String
  deriving DecidableEq, Inhabited

/-- A cluster with its clock (in milliseconds), its background work and the key store for leases. -/
structure Timeline where
  cluster : Cluster
  now : Nat
  syncing : List Nat
  periodics : List Periodic
  leases : Lease.Store
  leasesUp : Bool
  rounds : Nat
  deriving Inhabited

namespace Timeline

def start (n : Nat) : Timeline := ⟨.start n, 0, [], [], .empty, true, 0⟩

/-- The nodes that apply events as they come empty their inboxes. -/
def settle (t : Timeline) : Timeline :=
  { t with cluster := t.syncing.foldl (fun c i => c.drain i (c.inbox i).length) t.cluster }

/-- Makes a node apply events as they come. -/
def spawnSync (t : Timeline) (i : Nat) : Timeline := { t with syncing := t.syncing ++ [i] }.settle

/-- Makes a node reload at an interval of milliseconds from now on. -/
def spawnPeriodic (t : Timeline) (i interval : Nat) (key : Option String) : Timeline :=
  { t with periodics := t.periodics ++ [⟨i, interval, t.now + interval, key⟩] }

def stopPeriodic (t : Timeline) (i : Nat) : Timeline :=
  { t with periodics := t.periodics.filter fun p => p.node != i }

/-- The lease of a round lasts nine tenths of the interval, and at least a millisecond. -/
def leaseLength (interval : Nat) : Duration := ⟨max (interval * 900000) 1000000⟩

/-- Tries to win the lease of a round. -/
def win (t : Timeline) (key : String) (interval : Nat) : Bool × Timeline :=
  if t.leasesUp then
    let request : Lease.Request := ⟨key, leaseLength interval, 0, ⟨0⟩⟩
    let (r, l) := Lease.Local.world.acquire request (toString t.rounds)
      ⟨t.leases, t.now * 1000000⟩
    (match r with
      | .ok (some _) => true
      | _ => false, { t with leases := l.store, rounds := t.rounds + 1 })
  else (false, t)

/-- One round of a periodic reload. -/
def round (t : Timeline) (p : Periodic) : Timeline :=
  match p.key with
  | none => { t with cluster := (t.cluster.reload p.node).2 }
  | some key =>
    let (won, t) := t.win key p.interval
    if won then { t with cluster := t.cluster.broadcastReload.2 } else t

/-- A millisecond passes, and the reloads that are due then take place. -/
def tick (t : Timeline) : Timeline :=
  let t := { t with now := t.now + 1 }
  let due := t.periodics.filter fun p => p.due == t.now
  if due.isEmpty then t
  else
    let t := { t with periodics := t.periodics.map fun p =>
      if p.due == t.now then { p with due := p.due + p.interval } else p }
    (due.foldl round t).settle

/-- So many milliseconds pass. -/
def elapse : Nat → Timeline → Timeline
  | 0, t => t
  | n + 1, t => elapse n t.tick

end Timeline
end EdgeGateway

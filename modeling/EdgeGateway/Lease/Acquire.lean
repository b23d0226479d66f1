import EdgeGateway.Error
import EdgeGateway.Lease.Store

/-!
# Acquiring and releasing leases

A lease is a key with the token under which it was taken. Acquiring one asks the key store, and
asks again after a pause for as many retries as are wanted; a store that cannot be reached counts as
one that is busy. Releasing a lease frees its key only while the store holds the lease's token.
-/

namespace EdgeGateway.Lease

/-- The proof that a key was taken. -/
structure Grant where
  key : String
  token : String
  deriving DecidableEq, Inhabited

/-- The answer of a key store to a call. -/
inductive Reply
  | yes
  | no
  | unreachable
  deriving DecidableEq, Inhabited

/-- What a caller does: a call of the key store, or a pause. -/
inductive Call
  | setIfAbsent (key token : String) (ttl : Duration)
  | deleteIfOwner (key token : String)
  | pause (length : Duration)
  deriving DecidableEq, Inhabited

/-- The owner's token of sixteen random bytes: their hexadecimal digits. -/
def tokenOfBytes (bs : List UInt8) : String :=
  String.ofList (bs.flatMap fun b => [Nat.digitChar (b.toNat / 16), Nat.digitChar (b.toNat % 16)])

/-- A wish for a lease. -/
structure Request where
  key : String
  ttl : Duration
  retries : Nat
  backoff : Duration
  deriving DecidableEq, Inhabited

/-- Why a wish makes no sense, if it makes none. -/
def Request.fault? (r : Request) : Option GatewayError :=
  if r.key.toList.isEmpty then some (.invalidLease "key must not be empty")
  else if r.ttl.millis = 0 then some (.invalidLease s!"ttl for '{r.key}' must be at least 1ms")
  else if 0 < r.retries ∧ r.backoff.isZero then
    some (.invalidLease s!"backoff for '{r.key}' must be non-zero when retrying")
  else none

/-- An acquisition under way: `left` attempts may follow the present one. -/
structure Attempt where
  key : String
  token : String
  ttl : Duration
  backoff : Duration
  left : Nat
  deriving DecidableEq, Inhabited

namespace Attempt

/-- The call that the attempt makes. -/
def call (a : Attempt) : Call := .setIfAbsent a.key a.token a.ttl

/-- The attempt has ended: with a lease, without one, or with another attempt after a pause. -/
inductive Progress
  | granted (g : Grant)
  | failed
  | again (a : Attempt)
  deriving DecidableEq

/-- Where the store's answer leads. -/
def next (a : Attempt) : Reply → Progress
  | .yes => .granted ⟨a.key, a.token⟩
  | _ =>
    match a.left with
    | 0 => .failed
    | n + 1 => .again { a with left := n }

theorem left_lt_of_next {a b : Attempt} {r : Reply} (h : a.next r = .again b) :
    b.left < a.left := by
  unfold next at h
  split at h
  · simp at h
  · split at h
    · simp at h
    next n hn => cases h; show n < a.left; omega

end Attempt

/-- The first attempt of a wish that makes sense, under a new token. -/
def Request.begin (r : Request) (token : String) : Except GatewayError Attempt :=
  match r.fault? with
  | some e => .error e
  | none => .ok ⟨r.key, token, r.ttl, r.backoff, r.retries⟩

/-- A world in which calls are answered and pauses take time. -/
structure World (σ : Type) where
  answer : Call → σ → Reply × σ

namespace World

variable {σ : Type}

/-- Makes attempts until one is granted or none is left. -/
def attempts (w : World σ) (a : Attempt) (s : σ) : Option Grant × σ :=
  let (reply, s) := w.answer a.call s
  match _h : a.next reply with
  | .granted g => (some g, s)
  | .failed => (none, s)
  | .again b => attempts w b (w.answer (.pause b.backoff) s).2
termination_by a.left
decreasing_by exact Attempt.left_lt_of_next _h

/-- Acquires a lease, or none if the key stays busy. -/
def acquire (w : World σ) (r : Request) (token : String) (s : σ) :
    Except GatewayError (Option Grant) × σ :=
  match r.begin token with
  | .error e => (.error e, s)
  | .ok a =>
    let (g, s) := w.attempts a s
    (.ok g, s)

/-- Gives a lease back; tells whether it still held its key. -/
def release (w : World σ) (g : Grant) (s : σ) : Bool × σ :=
  let (reply, s) := w.answer (.deleteIfOwner g.key g.token) s
  (reply == .yes, s)

end World

/-- A key store in one process, with the instant that its clock shows. -/
structure Local where
  store : Store
  now : Nat
  deriving DecidableEq, Inhabited

namespace Local

/-- A pause moves the clock on; a call takes no time. -/
def answer : Call → Local → Reply × Local
  | .setIfAbsent key token ttl, l =>
    let (b, store) := l.store.setIfAbsent l.now key token ttl
    (if b then .yes else .no, { l with store := store })
  | .deleteIfOwner key token, l =>
    let (b, store) := l.store.deleteIfOwner l.now key token
    (if b then .yes else .no, { l with store := store })
  | .pause length, l => (.yes, { l with now := l.now + length.nanos })

def world : World Local := ⟨answer⟩

end Local

/-- A key store whose answers are given in advance, with what was asked of it, newest first; when
no answer is left it cannot be reached. -/
structure Scripted where
  sets : List Reply
  deletes : List Reply
  calls : List Call
  deriving DecidableEq, Inhabited

namespace Scripted

def answer (c : Call) (s : Scripted) : Reply × Scripted :=
  let s := { s with calls := c :: s.calls }
  match c with
  | .setIfAbsent .. => (s.sets.headD .unreachable, { s with sets := s.sets.drop 1 })
  | .deleteIfOwner .. => (s.deletes.headD .unreachable, { s with deletes := s.deletes.drop 1 })
  | .pause _ => (.yes, s)

def world : World Scripted := ⟨answer⟩

end Scripted
end EdgeGateway.Lease

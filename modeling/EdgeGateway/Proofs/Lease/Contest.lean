import EdgeGateway.Proofs.Lease.Attempts

/-! # Callers that compete for keys

Any number of callers acquire leases of one key store and release them, and time passes. An
acquisition begins with a token that was not used before; then each of its attempts is a step of its
own, so that the attempts of all callers, their releases and the time that passes come in any order
(`Contest.run`). All leases that were granted are written down, with the instant at which they were
granted and whether they were given back. What one caller does by itself is such a run
(`exists_run_attempts`). -/

namespace EdgeGateway.Lease

/-- A lease that was granted at an instant for some time, and whether it was released. -/
structure Tenancy where
  grant : Grant
  since : Nat
  ttl : Duration
  released : Bool
  deriving DecidableEq, Inhabited

namespace Tenancy

/-- The lease has neither been released nor run out. -/
def Live (t : Tenancy) (now : Nat) : Prop := t.released = false ∧ now < t.since + t.ttl.nanos

instance (t : Tenancy) (now : Nat) : Decidable (t.Live now) := by unfold Live; infer_instance

/-- The lease after the release of a grant. -/
def close (g : Grant) (t : Tenancy) : Tenancy :=
  if t.grant = g then { t with released := true } else t

end Tenancy

/-- A key store, the acquisitions under way, the tokens that were used and the leases that were
granted, the latest first. -/
structure Contest where
  server : Local
  attempts : List Attempt
  tokens : List String
  leases : List Tenancy
  deriving DecidableEq, Inhabited

/-- An acquisition begins, the one at some place makes its next attempt, a lease is released, or
time passes. -/
inductive Contest.Action
  | begin (r : Request) (token : String)
  | attempt (place : Nat)
  | release (g : Grant)
  | pass (length : Duration)
  deriving DecidableEq, Inhabited

namespace Contest

/-- A contest for the keys of a new store. -/
def start (now : Nat) : Contest := ⟨⟨.empty, now⟩, [], [], []⟩

/-- One step; what is not possible changes nothing. -/
def step (c : Contest) : Action → Contest
  | .begin r token =>
    if token ∈ c.tokens then c
    else
      match r.begin token with
      | .ok a => { c with attempts := c.attempts ++ [a], tokens := token :: c.tokens }
      | .error _ => c
  | .attempt place =>
    match c.attempts[place]? with
    | none => c
    | some a =>
      let (reply, l) := Local.world.answer a.call c.server
      match a.next reply with
      | .granted g =>
        { c with
          server := l, attempts := c.attempts.eraseIdx place
          leases := ⟨g, c.server.now, a.ttl, false⟩ :: c.leases }
      | .failed => { c with server := l, attempts := c.attempts.eraseIdx place }
      | .again b => { c with server := l, attempts := c.attempts.set place b }
  | .release g =>
    let (released, l) := Local.world.release g c.server
    { c with server := l, leases := if released then c.leases.map (.close g) else c.leases }
  | .pass length => { c with server := (Local.world.answer (.pause length) c.server).2 }

/-- Steps in order. -/
def run (c : Contest) (as : List Action) : Contest := as.foldl step c

/-! ### Calls of the key store -/

theorem answer_call (a : Attempt) (l : Local) : Local.world.answer a.call l =
    (if (l.store.setIfAbsent l.now a.key a.token a.ttl).1 then .yes else .no,
      ⟨(l.store.setIfAbsent l.now a.key a.token a.ttl).2, l.now⟩) := rfl

theorem release_eq (g : Grant) (l : Local) : Local.world.release g l =
    ((l.store.deleteIfOwner l.now g.key g.token).1,
      ⟨(l.store.deleteIfOwner l.now g.key g.token).2, l.now⟩) := by
  have hr : (Local.world.answer (.deleteIfOwner g.key g.token) l) =
      (if (l.store.deleteIfOwner l.now g.key g.token).1 then .yes else .no,
        ⟨(l.store.deleteIfOwner l.now g.key g.token).2, l.now⟩) := rfl
  unfold World.release
  rw [hr]
  cases (l.store.deleteIfOwner l.now g.key g.token).1 <;> rfl

/-! ### One caller by itself -/

section

variable {a b : Attempt} {l l' : Local} {r : Reply}

theorem now_of_call (h : Local.world.answer a.call l = (r, l')) : l'.now = l.now := by
  have hl : (Local.world.answer a.call l).2.now = l.now := rfl
  rw [h] at hl
  exact hl

/-- An attempt is granted where the key was taken. -/
theorem granted_eq {g : Grant} (h : a.next r = .granted g) : r = .yes ∧ g = ⟨a.key, a.token⟩ := by
  unfold Attempt.next at h
  split at h
  · cases h
    exact ⟨rfl, rfl⟩
  · split at h <;> cases h

/-- A further attempt is for the same key under the same token. -/
theorem again_eq (h : a.next r = .again b) : b = { a with left := b.left } := by
  unfold Attempt.next at h
  split at h
  · cases h
  · split at h <;> cases h
    rfl

/-- The leases after an acquisition that came to its end. -/
def book (leases : List Tenancy) (ttl : Duration) (now : Nat) : Option Grant → List Tenancy
  | some g => ⟨g, now, ttl, false⟩ :: leases
  | none => leases

/-- The attempt of the acquisition that began last. -/
theorem step_attempt_last (c : Contest) (others : List Attempt)
    (hcall : Local.world.answer a.call c.server = (r, l)) :
    step { c with attempts := others ++ [a] } (.attempt others.length) =
      match a.next r with
      | .granted g =>
        { c with
          server := l, attempts := others
          leases := ⟨g, c.server.now, a.ttl, false⟩ :: c.leases }
      | .failed => { c with server := l, attempts := others }
      | .again b => { c with server := l, attempts := others ++ [b] } := by
  have hat : (others ++ [a])[others.length]? = some a := by simp
  have herase : (others ++ [a]).eraseIdx others.length = others := by
    rw [List.eraseIdx_append_of_length_le (Nat.le_refl _), Nat.sub_self]
    exact List.append_nil others
  simp only [step, hat, hcall]
  cases a.next r <;> simp [herase]

/-- **The attempts of one caller without other steps in between**, with their pauses, are a run. -/
theorem exists_run_attempts (a : Attempt) (c : Contest) (others : List Attempt) :
    ∃ as, run { c with attempts := others ++ [a] } as =
      { c with
        server := (Local.world.attempts a c.server).2, attempts := others
        leases := book c.leases a.ttl (Local.world.attempts a c.server).2.now
          (Local.world.attempts a c.server).1 } := by
  generalize hleft : a.left = n
  induction n using Nat.strongRecOn generalizing a c with
  | _ n ih =>
    obtain ⟨r, l, hcall⟩ : ∃ r l, Local.world.answer a.call c.server = (r, l) := ⟨_, _, rfl⟩
    have hstep := step_attempt_last c others hcall
    rw [attempts_eq hcall]
    match hn : a.next r with
    | .granted g =>
      refine ⟨[.attempt others.length], hstep.trans ?_⟩
      rw [hn, ← now_of_call hcall]
      rfl
    | .failed =>
      refine ⟨[.attempt others.length], hstep.trans ?_⟩
      rw [hn]
      rfl
    | .again b =>
      have hlt := Attempt.left_lt_of_next hn
      have httl : b.ttl = a.ttl := by rw [again_eq hn]
      obtain ⟨as, has⟩ := ih b.left (hleft ▸ hlt) b
        { c with server := (Local.world.answer (.pause b.backoff) l).2 } rfl
      refine ⟨.attempt others.length :: .pass b.backoff :: as, ?_⟩
      show run (step (step _ _) _) as = _
      rw [hstep, hn, ← httl]
      exact has

end

end Contest
end EdgeGateway.Lease

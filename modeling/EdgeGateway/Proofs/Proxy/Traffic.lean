import EdgeGateway.Proofs.Proxy.Stamps
import EdgeGateway.Proofs.RequestId.Increasing
import EdgeGateway.Proofs.Route.MatchOrder

/-! # Requests that overlap

The gateway handles any number of requests at once, while the routes and the blacklist are changed.
A call takes three steps: the filter, the look-up of its route in the table that is active by then,
and the drawing of an id with all that follows from it. Taken in a row these are the steps of
`Proxy.handle?` (`run_handle`).

What lies behind the stage of a call is `Came`, which each step keeps (`came_moves`). So a request
is sent only after the filter let it through, a table had a first route for it and an id was drawn.
The mark of the generator never falls (`becomes_run`), and an id is above the mark that all earlier
ones have left, so that no id is drawn twice (`numbered_ne`). -/

namespace EdgeGateway

open Http Edge Proxy

/-! ### Steps -/

namespace Traffic

/-- How far a call has come: it has arrived, the filter has let it through as `q`, the route `r` has
been found for it, or it has come to its end. -/
inductive Stage
  | arrived
  | filtered (q : Request)
  | routed (q : Request) (r : Route)
  | done (o : Outcome)
  deriving DecidableEq

/-- A call over a connection with `peer`. -/
structure Call where
  request : Request
  peer : Address
  stage : Stage
  deriving DecidableEq

/-- A step of a call, with the readings of the clocks that it takes. -/
inductive Action
  | filter (at_ : Blacklist.Readings)
  | route
  | number (readings : List UInt64)

namespace Call

/-- The path that the route of the call is looked up by. -/
def path (c : Call) : String := String.ofList c.request.uri.effectivePath

/-- What has been sent for the call, and where to: a target that cannot be dialed gets nothing. -/
def sent? (c : Call) : Option (Uri × Request) :=
  match c.stage with
  | .done (.sent t q) => if isDialable t then some (t, q) else none
  | _ => none

/-- The stage and the gateway after a step. A step out of turn does nothing, and neither does one
that still waits for a later millisecond when its readings end. -/
def take (c : Call) (p : Proxy) : Action → Stage × Proxy
  | .filter at_ =>
    match c.stage with
    | .arrived =>
      match p.filter.filter c.request c.peer p.blacklist at_ with
      | (.deny, b) => (.done .denied, { p with blacklist := b })
      | (.forward q _, b) => (.filtered q, { p with blacklist := b })
    | stage => (stage, p)
  | .route =>
    match c.stage with
    | .filtered q =>
      match p.table.find? c.path with
      | none => (.done .noRoute, p)
      | some r => (.routed q r, p)
    | stage => (stage, p)
  | .number readings =>
    match c.stage with
    | .routed q r =>
      match p.ids.next? readings with
      | none => (.routed q r, p)
      | some (.error _, g, _) => (.done .noId, { p with ids := g })
      | some (.ok id, g, _) => (.done (p.dispatch r id q), { p with ids := g })
    | stage => (stage, p)

end Call

/-- A call arrives or takes a step, other routes become active, or the blacklist is changed. -/
inductive Event
  | arrive (q : Request) (peer : Address)
  | step (i : Nat) (a : Action)
  | publish (t : RouteTable)
  | block (b : Blacklist)

/-- The readings of the clock fit into an id, and the routes are those of a table that was built. -/
def Event.Admissible : Event → Prop
  | .step _ (.number readings) => RequestId.Generator.InEra readings
  | .publish t => t.Built
  | _ => True

end Traffic

/-- A gateway with the calls that it has been given, in the order of their arrival. -/
structure Traffic where
  proxy : Proxy
  calls : List Traffic.Call

namespace Traffic

/-- One event. -/
def step (s : Traffic) : Event → Traffic
  | .arrive q peer => { s with calls := s.calls ++ [⟨q, peer, .arrived⟩] }
  | .step i a =>
    match s.calls[i]? with
    | some c => ⟨(c.take s.proxy a).2, s.calls.set i { c with stage := (c.take s.proxy a).1 }⟩
    | none => s
  | .publish t => { s with proxy := { s.proxy with table := t } }
  | .block b => { s with proxy := { s.proxy with blacklist := b } }

/-- Events in order. -/
def run (s : Traffic) (es : List Event) : Traffic := es.foldl step s

variable {s : Traffic} {p p' : Proxy} {c c' : Call} {i j : Nat} {e : Event} {es pre : List Event}

theorem run_append (s : Traffic) (es es' : List Event) : s.run (es ++ es') = (s.run es).run es' :=
  List.foldl_append

theorem run_concat (s : Traffic) (es : List Event) (e : Event) :
    s.run (es ++ [e]) = (s.run es).step e :=
  run_append s es [e]

/-! ### A call alone -/

theorem step_last (p : Proxy) (cs : List Call) (c : Call) (a : Action) :
    step ⟨p, cs ++ [c]⟩ (.step cs.length a) =
      ⟨(c.take p a).2, cs ++ [{ c with stage := (c.take p a).1 }]⟩ := by
  unfold step
  simp

/-- **The steps of a call in a row are those of the gateway.** -/
theorem run_handle {q : Request} {peer : Address} {at_ : Blacklist.Readings}
    {readings rest : List UInt64} {o : Outcome} (s : Traffic)
    (h : s.proxy.handle? q peer at_ readings = some (o, p', rest)) :
    s.run [.arrive q peer, .step s.calls.length (.filter at_), .step s.calls.length .route,
      .step s.calls.length (.number readings)] = ⟨p', s.calls ++ [⟨q, peer, .done o⟩]⟩ := by
  obtain ⟨p, cs⟩ := s
  have harrive : step ⟨p, cs⟩ (.arrive q peer) = ⟨p, cs ++ [⟨q, peer, .arrived⟩]⟩ := rfl
  rw [run, List.foldl_cons, List.foldl_cons, List.foldl_cons, List.foldl_cons, List.foldl_nil,
    harrive, step_last, step_last, step_last]
  unfold handle? at h
  dsimp only at h ⊢
  rcases hf : p.filter.filter q peer p.blacklist at_ with ⟨_ | ⟨q₁, ctx⟩, b⟩
  · simp only [hf, Option.some.injEq, Prod.mk.injEq] at h
    obtain ⟨rfl, rfl, -⟩ := h
    simp [Call.take, hf]
  rcases hr : p.table.find? (String.ofList q.uri.effectivePath) with _ | r
  · simp only [hf, hr, Option.some.injEq, Prod.mk.injEq] at h
    obtain ⟨rfl, rfl, -⟩ := h
    simp [Call.take, Call.path, hf, hr]
  rcases hn : p.ids.next? readings with _ | ⟨_ | id, g, rest'⟩
  · simp [hf, hr, hn] at h
  · simp only [hf, hr, hn, Option.map_some, Option.some.injEq, Prod.mk.injEq] at h
    obtain ⟨rfl, rfl, -⟩ := h
    simp [Call.take, Call.path, hf, hr, hn]
  · simp only [hf, hr, hn, Option.map_some, Option.some.injEq, Prod.mk.injEq] at h
    obtain ⟨rfl, rfl, -⟩ := h
    simp [Call.take, Call.path, hf, hr, hn, dispatch]

/-! ### What one step does -/

/-- What a step may do to a call and to the gateway. -/
inductive Moves (p : Proxy) (c : Call) : Action → Stage → Proxy → Prop
  | stay {a : Action} : Moves p c a c.stage p
  | deny {at_ : Blacklist.Readings} {b : Blacklist} (hs : c.stage = .arrived)
    (h : p.filter.filter c.request c.peer p.blacklist at_ = (.deny, b)) :
    Moves p c (.filter at_) (.done .denied) { p with blacklist := b }
  | pass {at_ : Blacklist.Readings} {b : Blacklist} {q : Request} {ctx : Context}
    (hs : c.stage = .arrived)
    (h : p.filter.filter c.request c.peer p.blacklist at_ = (.forward q ctx, b)) :
    Moves p c (.filter at_) (.filtered q) { p with blacklist := b }
  | miss {q : Request} (hs : c.stage = .filtered q) (h : p.table.find? c.path = none) :
    Moves p c .route (.done .noRoute) p
  | find {q : Request} {r : Route} (hs : c.stage = .filtered q)
    (h : p.table.find? c.path = some r) : Moves p c .route (.routed q r) p
  | refuse {readings rest : List UInt64} {q : Request} {r : Route} {err : GatewayError}
    {g : RequestId.Generator} (hs : c.stage = .routed q r)
    (h : p.ids.next? readings = some (.error err, g, rest)) :
    Moves p c (.number readings) (.done .noId) { p with ids := g }
  | number {readings rest : List UInt64} {q : Request} {r : Route} {id : UInt64}
    {g : RequestId.Generator} (hs : c.stage = .routed q r)
    (h : p.ids.next? readings = some (.ok id, g, rest)) :
    Moves p c (.number readings) (.done (p.dispatch r id q)) { p with ids := g }

theorem moves_take (p : Proxy) (c : Call) (a : Action) :
    Moves p c a (c.take p a).1 (c.take p a).2 := by
  obtain ⟨request, peer, stage⟩ := c
  cases a with
  | filter at_ =>
    cases stage with
    | arrived =>
      unfold Call.take
      dsimp only
      split
      next h => exact .deny rfl h
      next h => exact .pass rfl h
    | _ => exact .stay
  | route =>
    cases stage with
    | filtered q =>
      unfold Call.take
      dsimp only
      split
      next h => exact .miss rfl h
      next h => exact .find rfl h
    | _ => exact .stay
  | number readings =>
    cases stage with
    | routed q r =>
      unfold Call.take
      dsimp only
      split
      next h => exact .stay
      next h => exact .refuse rfl h
      next h => exact .number rfl h
    | _ => exact .stay

/-- **What one event does to a call**: it arrives, it stays as it is, or it takes a step. -/
theorem call_step (h : (s.step e).calls[i]? = some c') : c'.stage = .arrived ∨
    s.calls[i]? = some c' ∨
    ∃ c a stage, e = .step i a ∧ s.calls[i]? = some c ∧ c' = { c with stage } ∧
      Moves s.proxy c a stage (s.step e).proxy := by
  cases e with
  | arrive q peer =>
    replace h : (s.calls ++ [_])[i]? = some c' := h
    rw [List.getElem?_append] at h
    split_ifs at h
    · exact Or.inr (Or.inl h)
    · left
      rw [List.mem_singleton.mp (List.mem_of_getElem? h)]
  | step j a =>
    rw [step] at h ⊢
    split at h
    next c hc =>
      dsimp only at h
      rw [List.getElem?_set] at h
      split_ifs at h with hij hlt
      · subst hij
        exact Or.inr (Or.inr ⟨c, a, _, rfl, hc, (Option.some.inj h).symm, moves_take s.proxy c a⟩)
      · exact Or.inr (Or.inl h)
    next => exact Or.inr (Or.inl h)
  | publish t => exact Or.inr (Or.inl h)
  | block b => exact Or.inr (Or.inl h)

/-- What one event does to the gateway: another table, another blacklist, or a step of a call. -/
inductive Changes (s : Traffic) : Event → Proxy → Prop
  | none {e : Event} : Changes s e s.proxy
  | publish (t : RouteTable) : Changes s (.publish t) { s.proxy with table := t }
  | block (b : Blacklist) : Changes s (.block b) { s.proxy with blacklist := b }
  | step {i : Nat} {c : Call} {a : Action} {stage : Stage} {p : Proxy}
    (h : Moves s.proxy c a stage p) : Changes s (.step i a) p

theorem changes_step (s : Traffic) (e : Event) : Changes s e (s.step e).proxy := by
  cases e with
  | arrive q peer => exact .none
  | step i a =>
    rw [step]
    split
    next c hc => exact .step (moves_take s.proxy c a)
    next => exact .none
  | publish t => exact .publish t
  | block b => exact .block b

/-! ### What the gateway keeps -/

/-- The generator is one that can be reached, and the table is one that can be built. -/
structure Proper (p : Proxy) : Prop where
  ids : p.ids.Sound
  table : p.table.Built

/-- What a gateway can become: its configuration stays, and the mark of its ids does not fall. -/
structure Becomes (p p' : Proxy) : Prop where
  proper : Proper p'
  filter : p'.filter = p.filter
  engine : p'.engine = p.engine
  mark : p.ids.mark ≤ p'.ids.mark

theorem becomes_step (h : Proper s.proxy) (he : e.Admissible) :
    Becomes s.proxy (s.step e).proxy := by
  have hchange := changes_step s e
  generalize (s.step e).proxy = p' at hchange ⊢
  cases hchange with
  | none => exact ⟨h, rfl, rfl, Nat.le_refl _⟩
  | publish t => exact ⟨⟨h.ids, he⟩, rfl, rfl, Nat.le_refl _⟩
  | block b => exact ⟨⟨h.ids, h.table⟩, rfl, rfl, Nat.le_refl _⟩
  | step hm =>
    cases hm with
    | refuse hs hn =>
      have hg := RequestId.Generator.eq_of_next?_error h.ids he hn
      exact ⟨⟨hg ▸ h.ids, h.table⟩, rfl, rfl, Nat.le_of_eq (congrArg _ hg.symm)⟩
    | number hs hn =>
      have hi := RequestId.Generator.issues_of_next? h.ids he hn
      exact ⟨⟨hi.sound, h.table⟩, rfl, rfl, Nat.le_of_lt hi.above⟩
    | _ => exact ⟨⟨h.ids, h.table⟩, rfl, rfl, Nat.le_refl _⟩

theorem becomes_run (h : Proper s.proxy) (hes : ∀ e ∈ es, e.Admissible) :
    Becomes s.proxy (s.run es).proxy := by
  induction es generalizing s with
  | nil => exact ⟨h, rfl, rfl, Nat.le_refl _⟩
  | cons e es ih =>
    obtain ⟨he, hes⟩ := List.forall_mem_cons.mp hes
    have hstep := becomes_step h he
    have hrun := ih hstep.proper hes
    exact ⟨hrun.proper, hrun.filter.trans hstep.filter, hrun.engine.trans hstep.engine,
      Nat.le_trans hstep.mark hrun.mark⟩

/-! ### What lies behind a call -/

/-- The filter has come to `o` about the call. -/
def Filtered (s : Traffic) (es : List Event) (i : Nat) (c : Call) (o : Filter.Outcome) : Prop :=
  ∃ pre at_ b, pre ++ [.step i (.filter at_)] <+: es ∧
    (s.run pre).calls[i]? = some { c with stage := .arrived } ∧
    s.proxy.filter.filter c.request c.peer (s.run pre).proxy.blacklist at_ = (o, b)

/-- The route of the call, or that there is none, was looked up in the table that was active then,
after the filter had let the call through as `q`. -/
def Looked (s : Traffic) (es : List Event) (i : Nat) (c : Call) (q : Request)
    (found : Option Route) : Prop :=
  ∃ pre ctx, pre ++ [.step i .route] <+: es ∧
    (s.run pre).calls[i]? = some { c with stage := .filtered q } ∧
    Filtered s pre i c (.forward q ctx) ∧ (s.run pre).proxy.table.Finds c.path found

/-- The generator was asked for an id of the call, after its route had been looked up. -/
def Numbered (s : Traffic) (es : List Event) (i : Nat) (c : Call) (q : Request) (r : Route)
    (o : RequestId.Generator.Outcome) : Prop :=
  ∃ pre readings g rest, pre ++ [.step i (.number readings)] <+: es ∧
    (s.run pre).calls[i]? = some { c with stage := .routed q r } ∧ Looked s pre i c q (some r) ∧
    (s.run pre).proxy.ids.next? readings = some (o, g, rest)

/-- The request goes to the target of its route, after an id was drawn for it. -/
def Forwarded (s : Traffic) (es : List Event) (i : Nat) (c : Call) (t : Uri) (q' : Request) :
    Prop :=
  ∃ q r id, Numbered s es i c q r (.ok id) ∧
    target? r s.proxy.engine.toList (sentPath q.uri) = some t ∧
    q' = { q with uri := t, headers := stamp r id q.headers }

/-- What lies behind a stage of a call. -/
inductive Came (s : Traffic) (es : List Event) (i : Nat) (c : Call) : Stage → Prop
  | arrived : Came s es i c .arrived
  | filtered {q : Request} {ctx : Context} (h : Filtered s es i c (.forward q ctx)) :
    Came s es i c (.filtered q)
  | routed {q : Request} {r : Route} (h : Looked s es i c q (some r)) :
    Came s es i c (.routed q r)
  | denied (h : Filtered s es i c .deny) : Came s es i c (.done .denied)
  | noRoute {q : Request} (h : Looked s es i c q none) : Came s es i c (.done .noRoute)
  | noId {q : Request} {r : Route} {err : GatewayError} (h : Numbered s es i c q r (.error err)) :
    Came s es i c (.done .noId)
  | noTarget {q : Request} {r : Route} {id : UInt64} (h : Numbered s es i c q r (.ok id))
    (ht : target? r s.proxy.engine.toList (sentPath q.uri) = none) :
    Came s es i c (.done .noTarget)
  | sent {t : Uri} {q : Request} (h : Forwarded s es i c t q) : Came s es i c (.done (.sent t q))

section Mono

variable {es' : List Event} {q : Request} {r : Route} (h : es <+: es')
include h

theorem Filtered.mono {o : Filter.Outcome} : Filtered s es i c o → Filtered s es' i c o := by
  rintro ⟨pre, at_, b, hp, hrest⟩
  exact ⟨pre, at_, b, hp.trans h, hrest⟩

theorem Looked.mono {found : Option Route} :
    Looked s es i c q found → Looked s es' i c q found := by
  rintro ⟨pre, ctx, hp, hrest⟩
  exact ⟨pre, ctx, hp.trans h, hrest⟩

theorem Numbered.mono {o : RequestId.Generator.Outcome} :
    Numbered s es i c q r o → Numbered s es' i c q r o := by
  rintro ⟨pre, readings, g, rest, hp, hrest⟩
  exact ⟨pre, readings, g, rest, hp.trans h, hrest⟩

theorem Forwarded.mono {t : Uri} : Forwarded s es i c t q → Forwarded s es' i c t q := by
  rintro ⟨q₁, r, id, hn, hrest⟩
  exact ⟨q₁, r, id, hn.mono h, hrest⟩

theorem Came.mono {stage : Stage} (hc : Came s es i c stage) : Came s es' i c stage := by
  cases hc with
  | arrived => exact .arrived
  | filtered hf => exact .filtered (hf.mono h)
  | routed hl => exact .routed (hl.mono h)
  | denied hf => exact .denied (hf.mono h)
  | noRoute hl => exact .noRoute (hl.mono h)
  | noId hn => exact .noId (hn.mono h)
  | noTarget hn ht => exact .noTarget (hn.mono h) ht
  | sent hf => exact .sent (hf.mono h)

end Mono

theorem came_dispatch {q : Request} {r : Route} {id : UInt64} (he : p.engine = s.proxy.engine)
    (hn : Numbered s es i c q r (.ok id)) : Came s es i c (.done (p.dispatch r id q)) := by
  unfold dispatch
  rw [he]
  rcases ht : target? r s.proxy.engine.toList (sentPath q.uri) with _ | t
  · exact .noTarget hn ht
  · exact .sent ⟨q, r, id, hn, ht, rfl⟩

/-- **A step of a call** leads to a stage that has behind it what the stage before it had, and the
step. -/
theorem came_moves {a : Action} {stage : Stage} (hp : Becomes s.proxy (s.run es).proxy)
    (hc : (s.run es).calls[i]? = some c) (hcame : Came s es i c c.stage)
    (hm : Moves (s.run es).proxy c a stage p') :
    Came s (es ++ [.step i a]) i { c with stage } stage := by
  have hnow : es ++ [.step i a] <+: es ++ [.step i a] := List.prefix_rfl
  have hfinds := hp.proper.table.finds c.path
  obtain ⟨request, peer, st⟩ := c
  cases hm with
  | stay => exact hcame.mono (List.prefix_append _ _)
  | deny hs h =>
    obtain rfl : st = .arrived := hs
    rw [hp.filter] at h
    exact .denied ⟨es, _, _, hnow, hc, h⟩
  | pass hs h =>
    obtain rfl : st = .arrived := hs
    rw [hp.filter] at h
    exact .filtered ⟨es, _, _, hnow, hc, h⟩
  | miss hs h =>
    obtain rfl : st = .filtered _ := hs
    rw [h] at hfinds
    cases hcame with
    | filtered hf => exact .noRoute ⟨es, _, hnow, hc, hf, hfinds⟩
  | find hs h =>
    obtain rfl : st = .filtered _ := hs
    rw [h] at hfinds
    cases hcame with
    | filtered hf => exact .routed ⟨es, _, hnow, hc, hf, hfinds⟩
  | refuse hs h =>
    obtain rfl : st = .routed _ _ := hs
    cases hcame with
    | routed hl => exact .noId ⟨es, _, _, _, hnow, hc, hl, h⟩
  | number hs h =>
    obtain rfl : st = .routed _ _ := hs
    cases hcame with
    | routed hl => exact came_dispatch hp.engine ⟨es, _, _, _, hnow, hc, hl, h⟩

/-- **Every call of a run** has behind it what its stage says. -/
theorem came_run (hcalls : s.calls = []) (hp : Proper s.proxy) (hes : ∀ e ∈ es, e.Admissible)
    (hc : (s.run es).calls[i]? = some c) : Came s es i c c.stage := by
  induction es using List.reverseRecOn generalizing c with
  | nil =>
    have hnone : s.calls[i]? = some c := hc
    rw [hcalls, List.getElem?_nil] at hnone
    cases hnone
  | append_singleton es e ih =>
    have hes' : ∀ e ∈ es, e.Admissible := fun e he => hes e (List.mem_append_left _ he)
    rw [run_concat] at hc
    rcases call_step hc with harr | hstay | ⟨c₀, a, stage, rfl, hc₀, rfl, hm⟩
    · rw [harr]
      exact .arrived
    · exact (ih hes' hstay).mono (List.prefix_append _ _)
    · exact came_moves (becomes_run hp hes') hc₀ (ih hes' hc₀) hm

/-! ### Ends -/

theorem getElem?_step (hc : s.calls[i]? = some c) (a : Action) :
    (s.step (.step i a)).calls[i]? = some { c with stage := (c.take s.proxy a).1 } := by
  obtain ⟨hi, -⟩ := List.getElem?_eq_some_iff.mp hc
  rw [step, hc]
  exact List.getElem?_set_self hi

theorem take_done {o : Outcome} (h : c.stage = .done o) (p : Proxy) (a : Action) :
    c.take p a = (.done o, p) := by
  cases a <;> simp [Call.take, h]

/-- A call that has come to its end stays as it is. -/
theorem done_step {o : Outcome} (hc : s.calls[i]? = some c) (ho : c.stage = .done o) (e : Event) :
    (s.step e).calls[i]? = some c := by
  obtain ⟨hi, -⟩ := List.getElem?_eq_some_iff.mp hc
  cases e with
  | arrive q peer => exact (List.getElem?_append_left hi).trans hc
  | step j a =>
    by_cases hij : i = j
    · subst hij
      rw [getElem?_step hc, take_done ho, ← ho]
    · rw [step]
      split
      · exact (List.getElem?_set_ne (Ne.symm hij)).trans hc
      · exact hc
  | publish t => exact hc
  | block b => exact hc

theorem done_run {o : Outcome} (hc : s.calls[i]? = some c) (ho : c.stage = .done o)
    (es : List Event) : (s.run es).calls[i]? = some c := by
  induction es generalizing s with
  | nil => exact hc
  | cons e es ih => exact ih (done_step hc ho e)

/-- A step that leaves the stage and the gateway as they are changes nothing. -/
theorem step_of_take_eq {a : Action} (hc : s.calls[i]? = some c)
    (h : c.take s.proxy a = (c.stage, s.proxy)) : s.step (.step i a) = s := by
  obtain ⟨hi, hget⟩ := List.getElem?_eq_some_iff.mp hc
  rw [step, hc]
  dsimp only
  rw [h, ← hget, List.set_getElem_self hi]

section Answered

variable {q : Request} {r : Route} {readings : List UInt64}

theorem ends_of_routed (hc : s.calls[i]? = some c) (hs : c.stage = .routed q r)
    (hn : (s.proxy.ids.next? readings).isSome = true) :
    ∃ o, (s.run [.step i (.number readings)]).calls[i]? = some { c with stage := .done o } := by
  have hnext := getElem?_step hc (.number readings)
  obtain ⟨⟨x, g, rest⟩, hx⟩ := Option.isSome_iff_exists.mp hn
  rcases x with err | id
  · have htake : (c.take s.proxy (.number readings)).1 = .done .noId := by
      simp [Call.take, hs, hx]
    exact ⟨_, htake ▸ hnext⟩
  · have htake : (c.take s.proxy (.number readings)).1 = .done (s.proxy.dispatch r id q) := by
      simp [Call.take, hs, hx]
    exact ⟨_, htake ▸ hnext⟩

theorem ends_of_filtered (hc : s.calls[i]? = some c) (hs : c.stage = .filtered q)
    (hn : (s.proxy.ids.next? readings).isSome = true) :
    ∃ o, (s.run [.step i .route, .step i (.number readings)]).calls[i]? =
      some { c with stage := .done o } := by
  have hnext := getElem?_step hc .route
  rcases hr : s.proxy.table.find? c.path with _ | r
  · have htake : c.take s.proxy .route = (.done .noRoute, s.proxy) := by simp [Call.take, hs, hr]
    rw [htake] at hnext
    exact ⟨.noRoute, done_run hnext rfl _⟩
  · have htake : c.take s.proxy .route = (.routed q r, s.proxy) := by simp [Call.take, hs, hr]
    have hproxy : (s.step (.step i .route)).proxy = s.proxy := by rw [step, hc]; simp [htake]
    rw [htake] at hnext
    have hend := ends_of_routed hnext rfl (hproxy ▸ hn)
    exact hend

theorem ends_of_arrived (hc : s.calls[i]? = some c) (hs : c.stage = .arrived)
    (at_ : Blacklist.Readings) (hn : (s.proxy.ids.next? readings).isSome = true) :
    ∃ o, (s.run [.step i (.filter at_), .step i .route, .step i (.number readings)]).calls[i]? =
      some { c with stage := .done o } := by
  have hnext := getElem?_step hc (.filter at_)
  have hproxy : (s.step (.step i (.filter at_))).proxy = (c.take s.proxy (.filter at_)).2 := by
    rw [step, hc]
  rcases hf : s.proxy.filter.filter c.request c.peer s.proxy.blacklist at_ with ⟨_ | ⟨q, ctx⟩, b⟩
  · have htake : c.take s.proxy (.filter at_) =
        (.done .denied, { s.proxy with blacklist := b }) := by simp [Call.take, hs, hf]
    rw [htake] at hnext
    exact ⟨.denied, done_run hnext rfl _⟩
  · have htake : c.take s.proxy (.filter at_) =
        (.filtered q, { s.proxy with blacklist := b }) := by simp [Call.take, hs, hf]
    rw [htake] at hnext hproxy
    have hids : (s.step (.step i (.filter at_))).proxy.ids = s.proxy.ids := by rw [hproxy]
    have hend := ends_of_filtered hnext rfl (hids ▸ hn)
    exact hend

/-- **Every call comes to its end** by its own steps, if the readings are enough for an id. -/
theorem exists_end (hc : s.calls[i]? = some c) (at_ : Blacklist.Readings)
    (hn : (s.proxy.ids.next? readings).isSome = true) :
    ∃ o, (s.run [.step i (.filter at_), .step i .route, .step i (.number readings)]).calls[i]? =
      some { c with stage := .done o } := by
  have hskip {a : Action} (h : c.take s.proxy a = (c.stage, s.proxy)) (es : List Event) :
      s.run (.step i a :: es) = s.run es := by
    rw [run, List.foldl_cons, step_of_take_eq hc h]
    rfl
  rcases hs : c.stage with _ | q | ⟨q, r⟩ | o
  · exact ends_of_arrived hc hs at_ hn
  · rw [hskip (by simp [Call.take, hs])]
    exact ends_of_filtered hc hs hn
  · rw [hskip (by simp [Call.take, hs]), hskip (by simp [Call.take, hs])]
    exact ends_of_routed hc hs hn
  · refine ⟨o, ?_⟩
    rw [← hs]
    exact done_run hc hs _

end Answered

theorem dispatch_cases (p : Proxy) (r : Route) (id : UInt64) (q : Request) :
    p.dispatch r id q = .noTarget ∨ ∃ t q', p.dispatch r id q = .sent t q' := by
  unfold dispatch
  split
  · exact Or.inl rfl
  · exact Or.inr ⟨_, _, rfl⟩

/-- **The steps of a call that finds no way through** leave the generator as it is. -/
theorem ids_untouched {a : Action} (hpre : pre ++ [.step i a] <+: es)
    (hc : (s.run es).calls[i]? = some c)
    (ho : c.stage = .done .denied ∨ c.stage = .done .noRoute) :
    (s.run (pre ++ [.step i a])).proxy.ids = (s.run pre).proxy.ids := by
  obtain ⟨post, rfl⟩ := hpre
  rw [run_append, run_concat] at hc
  rw [run_concat]
  generalize s.run pre = u at hc ⊢
  rcases hu : u.calls[i]? with _ | c₀
  · rw [step, hu]
  have hnext := getElem?_step hu a
  have hm := moves_take u.proxy c₀ a
  have hproxy : (u.step (.step i a)).proxy = (c₀.take u.proxy a).2 := by rw [step, hu]
  rw [hproxy]
  generalize (c₀.take u.proxy a).1 = stage at hm hnext
  generalize (c₀.take u.proxy a).2 = p' at hm
  -- a step that draws an id ends the call, in another way
  have hend {o : Outcome} (hstage : stage = .done o) : c.stage = .done o := by
    have hlast := done_run hnext hstage post
    rw [hc, Option.some.injEq] at hlast
    rw [hlast, hstage]
  cases hm with
  | refuse hs h => rw [hend rfl] at ho; simp at ho
  | @number _ _ q r id _ hs h =>
    rw [hend rfl] at ho
    rcases dispatch_cases u.proxy r id q with hd | ⟨t, q', hd⟩ <;> simp [hd] at ho
  | _ => rfl

/-! ### Ids -/

/-- The id of a call is above the mark before its step, and the mark after that is the id's. -/
theorem Numbered.marks {q : Request} {r : Route} {id : UInt64} (hp : Proper s.proxy)
    (hes : ∀ e ∈ es, e.Admissible) (h : Numbered s es i c q r (.ok id)) :
    ∃ pre a, pre ++ [.step i a] <+: es ∧
      (s.run pre).proxy.ids.mark < id.toNat + 2 ^ 22 * RequestId.epoch.toNat ∧
      id.toNat + 2 ^ 22 * RequestId.epoch.toNat = (s.run (pre ++ [.step i a])).proxy.ids.mark := by
  obtain ⟨pre, readings, g, rest, hpre, hc, -, hn⟩ := h
  have hsub := hpre.subset
  have hsound := (becomes_run hp fun e he => hes e (hsub (List.mem_append_left _ he))).proper.ids
  have hera : RequestId.Generator.InEra readings :=
    hes (.step i (.number readings)) (hsub List.mem_concat_self)
  have hi := RequestId.Generator.issues_of_next? hsound hera hn
  have hg : (s.run (pre ++ [.step i (.number readings)])).proxy.ids = g := by
    rw [run_concat, step, hc]
    simp only [Call.take, hn]
  refine ⟨pre, .number readings, hpre, ?_, ?_⟩
  · rw [hi.marked]
    exact hi.above
  · rw [hi.marked, hg]

/-- The mark does not fall between the steps of two calls. -/
theorem mark_le {a a' : Action} {pre' : List Event} (hp : Proper s.proxy)
    (hes : ∀ e ∈ es, e.Admissible) (hij : i ≠ j) (hpre' : pre' ++ [.step j a'] <+: es)
    (h : pre ++ [.step i a] <+: pre' ++ [.step j a']) :
    (s.run (pre ++ [.step i a])).proxy.ids.mark ≤ (s.run pre').proxy.ids.mark := by
  rcases List.prefix_concat_iff.mp h with heq | ⟨mid, rfl⟩
  · obtain ⟨-, he⟩ := List.append_inj' heq rfl
    simp only [List.cons.injEq, Event.step.injEq] at he
    exact absurd he.1.1 hij
  · have hmem : ∀ e ∈ pre ++ [.step i a] ++ mid, e.Admissible :=
      fun e he => hes e (hpre'.subset (List.mem_append_left _ he))
    rw [run_append s (pre ++ [Event.step i a]) mid]
    have hfirst := becomes_run hp fun e he => hmem e (List.mem_append_left _ he)
    exact (becomes_run hfirst.proper fun e he => hmem e (List.mem_append_right _ he)).mark

/-- **No two calls get one id.** -/
theorem numbered_ne {q q' : Request} {r r' : Route} {id id' : UInt64} (hp : Proper s.proxy)
    (hes : ∀ e ∈ es, e.Admissible) (hij : i ≠ j) (hi : Numbered s es i c q r (.ok id))
    (hj : Numbered s es j c' q' r' (.ok id')) : id ≠ id' := by
  rintro rfl
  obtain ⟨pre, a, hpre, habove, hmark⟩ := hi.marks hp hes
  obtain ⟨pre', a', hpre', habove', hmark'⟩ := hj.marks hp hes
  rcases List.prefix_or_prefix_of_prefix hpre hpre' with h | h
  · have hle := mark_le hp hes hij hpre' h
    omega
  · have hle := mark_le hp hes (Ne.symm hij) hpre h
    omega

/-! ### Safety -/

/-- Why nothing is sent for a call, by the status of the answer. -/
inductive Withheld (s : Traffic) (es : List Event) (i : Nat) (c : Call) : Nat → Prop
  | denied (h : Filtered s es i c .deny) : Withheld s es i c 403
  | noRoute {q : Request} (h : Looked s es i c q none) : Withheld s es i c 404
  | noId {q : Request} {r : Route} {err : GatewayError} (h : Numbered s es i c q r (.error err)) :
    Withheld s es i c 503
  | noTarget {q : Request} {r : Route} {id : UInt64} (h : Numbered s es i c q r (.ok id))
    (ht : target? r s.proxy.engine.toList (sentPath q.uri) = none) : Withheld s es i c 502
  | noDial {t : Uri} {q : Request} (h : Forwarded s es i c t q) (ht : isDialable t = false) :
    Withheld s es i c 502

/-- What holds of the calls after events: the steps of a call in a row are those of the gateway;
what is sent is forwarded as it has to be, and what is not sent is answered with the status of the
cause; every call can come to its end, and the end is final; no two requests are sent under one id; and a call that is denied or finds no
route draws none. -/
structure Safe (s : Traffic) (es : List Event) : Prop where
  handled (q : Request) (peer : Address) (at_ : Blacklist.Readings) (readings rest : List UInt64)
    (o : Outcome) (p' : Proxy) :
    (s.run es).proxy.handle? q peer at_ readings = some (o, p', rest) →
    (s.run es).run [.arrive q peer, .step (s.run es).calls.length (.filter at_),
      .step (s.run es).calls.length .route,
      .step (s.run es).calls.length (.number readings)] =
      ⟨p', (s.run es).calls ++ [⟨q, peer, .done o⟩]⟩
  sent (i : Nat) (c : Call) (t : Uri) (q : Request) : (s.run es).calls[i]? = some c →
    c.sent? = some (t, q) → Forwarded s es i c t q
  withheld (i : Nat) (c : Call) (o : Outcome) : (s.run es).calls[i]? = some c →
    c.stage = .done o → c.sent? = none →
    ∃ n, Withheld s es i c n ∧ ∀ server, (o.response server).status = n
  answered (i : Nat) (c : Call) (at_ : Blacklist.Readings) (readings : List UInt64) :
    (s.run es).calls[i]? = some c → ((s.run es).proxy.ids.next? readings).isSome = true →
    ∃ o, ((s.run es).run [.step i (.filter at_), .step i .route,
      .step i (.number readings)]).calls[i]? = some { c with stage := .done o }
  final (i : Nat) (c : Call) (o : Outcome) : (s.run es).calls[i]? = some c →
    c.stage = .done o → ∀ es', ((s.run es).run es').calls[i]? = some c
  distinct (i j : Nat) (c c' : Call) (t t' : Uri) (q q' : Request) : i ≠ j →
    (s.run es).calls[i]? = some c → (s.run es).calls[j]? = some c' →
    c.sent? = some (t, q) → c'.sent? = some (t', q') →
    q.headers.values idHeader ≠ q'.headers.values idHeader
  untouched (i : Nat) (c : Call) : (s.run es).calls[i]? = some c →
    c.stage = .done .denied ∨ c.stage = .done .noRoute →
    ∀ pre a, pre ++ [.step i a] <+: es →
      (s.run (pre ++ [.step i a])).proxy.ids = (s.run pre).proxy.ids

theorem stage_of_sent? {t : Uri} {q : Request} (h : c.sent? = some (t, q)) :
    c.stage = .done (.sent t q) := by
  unfold Call.sent? at h
  split at h
  next t' q' hs =>
    split_ifs at h
    cases h
    exact hs
  next => cases h

theorem withheld_of_came {o : Outcome} (ho : c.stage = .done o) (hs : c.sent? = none)
    (h : Came s es i c (.done o)) :
    ∃ n, Withheld s es i c n ∧ ∀ server, (o.response server).status = n := by
  cases h with
  | denied hf => exact ⟨403, .denied hf, fun _ => rfl⟩
  | noRoute hl => exact ⟨404, .noRoute hl, fun _ => rfl⟩
  | noId hn => exact ⟨503, .noId hn, fun _ => rfl⟩
  | noTarget hn ht => exact ⟨502, .noTarget hn ht, fun _ => rfl⟩
  | @sent t q hf =>
    have hd : isDialable t = false := by
      unfold Call.sent? at hs
      simpa [ho] using hs
    refine ⟨502, .noDial hf hd, fun server => ?_⟩
    rw [Outcome.response, hd]
    rfl

theorem distinct_of_forwarded {t t' : Uri} {q q' : Request} (hp : Proper s.proxy)
    (hes : ∀ e ∈ es, e.Admissible) (hij : i ≠ j) (hi : Forwarded s es i c t q)
    (hj : Forwarded s es j c' t' q') :
    q.headers.values idHeader ≠ q'.headers.values idHeader := by
  obtain ⟨q₁, r, id, hn, -, rfl⟩ := hi
  obtain ⟨q₁', r', id', hn', -, rfl⟩ := hj
  rw [values_stamp_id, values_stamp_id]
  intro h
  have hid : id = id' := HeaderValue.encode_decimal_inj.mp (List.head_eq_of_cons_eq h)
  exact numbered_ne hp hes hij hn hn' hid

/-- **Requests are forwarded safely**, however many overlap and whatever is changed meanwhile. A
request is sent only after the filter let it through, a first route accepted its path, an id was
drawn and the route had a target; to that target, and under an id of its own. In all other cases it
is answered by the gateway, by the status of the cause; and a request that is denied or has no route
takes no id. -/
theorem forwards_safely {worker datacenter : UInt64}
    (hids : RequestId.Generator.create worker datacenter = .ok p.ids) (ht : p.table.Built)
    (hes : ∀ e ∈ es, e.Admissible) : Safe ⟨p, []⟩ es := by
  have hp : Proper p := ⟨RequestId.Generator.sound_of_create hids, ht⟩
  have hcame {i : Nat} {c : Call} (hc : (run ⟨p, []⟩ es).calls[i]? = some c) :
      Came ⟨p, []⟩ es i c c.stage := came_run rfl hp hes hc
  have hsent {i : Nat} {c : Call} {t : Uri} {q : Request}
      (hc : (run ⟨p, []⟩ es).calls[i]? = some c) (hs : c.sent? = some (t, q)) :
      Forwarded ⟨p, []⟩ es i c t q := by
    have hdone := hcame hc
    rw [stage_of_sent? hs] at hdone
    cases hdone with
    | sent hf => exact hf
  exact {
    handled := fun _ _ _ _ _ _ _ h => run_handle _ h
    sent := fun _ _ _ _ hc hs => hsent hc hs
    withheld := fun _ _ _ hc ho hs => withheld_of_came ho hs (ho ▸ hcame hc)
    answered := fun _ _ at_ _ hc hn => exists_end hc at_ hn
    final := fun _ _ _ hc ho => done_run hc ho
    distinct := fun _ _ _ _ _ _ _ _ hij hc hc' hs hs' =>
      distinct_of_forwarded hp hes hij (hsent hc hs) (hsent hc' hs')
    untouched := fun _ _ hc ho _ _ hpre => ids_untouched hpre hc ho }

/-- Three requests overlap, and the route changes twice after the filter. The second is the first
that takes its route, and the third finds none. -/
theorem forwards_safely_overlap :
    let path := (Rule.named "Path").withArg "_genkey_0" "/x/**"
    let engine := RouteTable.ofRoutes [{ Route.simple "a" "lb://orders" with predicates := [path] }]
    let direct := RouteTable.ofRoutes
      [{ Route.simple "b" "http://10.0.0.5:8080" with predicates := [path] }]
    let f : Filter :=
      ⟨.standard, "authorization", "x-user-id", "x-real-ip", "x-forwarded-for", none⟩
    let p : Proxy := ⟨f, engine, ⟨1, 1, 0, 0⟩, .empty, "http://engine:9000"⟩
    let q (path : String) : Request := ⟨"GET", ⟨none, none, path.toList, none⟩, ⟨[]⟩, []⟩
    let es : List Event := [.arrive (q "/x/1") default, .arrive (q "/x/2") default,
      .arrive (q "/y") default, .step 0 (.filter default), .step 1 (.filter default),
      .step 2 (.filter default), .publish direct, .step 1 .route, .publish engine, .step 0 .route,
      .step 2 .route, .step 1 (.number [1700000000000]), .step 0 (.number [1700000000000])]
    Safe ⟨p, []⟩ es ∧
      ((run ⟨p, []⟩ es).calls.map fun c => c.sent?.map fun x => (x.1, x.2.headers.values idHeader))
        = [some (⟨some "http".toList, some "engine:9000".toList, "/x/1".toList, none⟩,
            [HeaderValue.encode "1724551110456381441".toList]),
          some (⟨some "http".toList, some "10.0.0.5:8080".toList, "/x/2".toList, none⟩,
            [HeaderValue.encode "1724551110456381440".toList]), none] ∧
      ∃ c, (run ⟨p, []⟩ es).calls[2]? = some c ∧ Withheld ⟨p, []⟩ es 2 c 404 := by
  intro path engine direct f p q es
  have hengine : engine.Built := .ofRoutes _
  have hdirect : direct.Built := .ofRoutes _
  have hes : ∀ e ∈ es, e.Admissible := by
    have hera : RequestId.Generator.InEra [1700000000000] := by
      intro t ht
      rw [List.mem_singleton.mp ht]
      decide
    simp only [es, List.forall_mem_cons]
    exact ⟨trivial, trivial, trivial, trivial, trivial, trivial, hdirect, trivial, hengine,
      trivial, trivial, hera, hera, List.forall_mem_nil _⟩
  have hsafe : Safe ⟨p, []⟩ es :=
    forwards_safely (show RequestId.Generator.create 1 1 = .ok p.ids from rfl) hengine hes
  have hc : (run ⟨p, []⟩ es).calls[2]? = some ⟨q "/y", default, .done .noRoute⟩ := by
    decide +kernel
  obtain ⟨n, hwithheld, hn⟩ := hsafe.withheld 2 _ .noRoute hc rfl rfl
  obtain rfl : 404 = n := hn fun _ _ => none
  exact ⟨hsafe, by decide +kernel, _, hc, hwithheld⟩

end Traffic
end EdgeGateway

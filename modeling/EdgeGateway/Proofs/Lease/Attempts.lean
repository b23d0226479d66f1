import EdgeGateway.Lease.Acquire

/-! # The attempts of an acquisition

An acquisition asks the key store until a lease is granted or no attempt is left, and pauses between
two attempts. A world that also writes down what it was asked and what it answered shows all of this
and changes nothing (`World.recorded`, `exists_tried`).

* `Tried`: the calls of an acquisition that has ended, with their answers and its result.
* `tried_granted`, `tried_failed`, `Tried.again`: how one attempt goes on.
* `tries_until_granted`: what an acquisition does, whatever the store answers. -/

namespace EdgeGateway.Lease

variable {σ : Type} {w : World σ} {s s' : σ} {a : Attempt} {reply : Reply}

/-- A wish that makes no sense: for no key, for less than a millisecond, or for retries without a
pause. -/
def Request.Senseless (r : Request) : Prop :=
  r.key = "" ∨ r.ttl.nanos < 1000000 ∨ 0 < r.retries ∧ r.backoff.nanos = 0

/-- The answers to the attempts among the calls, without those to the pauses. -/
def replies (made : List (Call × Reply)) : List Reply :=
  made.filterMap fun m =>
    match m.1 with
    | .setIfAbsent .. => some m.2
    | _ => none

/-- The world that also writes down its calls with their answers, in order. -/
def World.recorded (w : World σ) : World (σ × List (Call × Reply)) where
  answer c s := ((w.answer c s.1).1, (w.answer c s.1).2, s.2 ++ [(c, (w.answer c s.1).1)])

/-- The calls of an acquisition that ends with a result: one call over and over with the pause in
between, until it is answered with yes or all attempts are made. -/
structure Tried (a : Attempt) (made : List (Call × Reply)) (result : Option Grant) : Prop where
  calls : made.map Prod.fst =
    (List.replicate (replies made).length a.call).intersperse (.pause a.backoff)
  nonempty : replies made ≠ []
  bounded : (replies made).length ≤ a.left + 1
  stopped : .yes ∉ (replies made).dropLast
  granted : .yes ∈ replies made → result = some ⟨a.key, a.token⟩
  failed : .yes ∉ replies made → (replies made).length = a.left + 1 ∧ result = none

/-! ### Attempts -/

theorem attempts_eq (h : w.answer a.call s = (reply, s')) : w.attempts a s =
    match a.next reply with
    | .granted g => (some g, s')
    | .failed => (none, s')
    | .again b => w.attempts b (w.answer (.pause b.backoff) s').2 := by
  rw [World.attempts]
  simp only [h]
  split
  all_goals
    rename_i hr
    change a.next (w.answer a.call s).1 = _ at hr
    rw [h] at hr
    rw [hr]

/-- An answer other than yes uses the attempt up. -/
theorem next_of_ne_yes (hr : reply ≠ .yes) : a.next reply =
    match a.left with
    | 0 => .failed
    | n + 1 => .again { a with left := n } := by
  cases reply with
  | yes => exact absurd rfl hr
  | no => rfl
  | unreachable => rfl

theorem recorded_answer {c : Call} (h : w.answer c s = (reply, s'))
    (before : List (Call × Reply)) :
    w.recorded.answer c (s, before) = (reply, s', before ++ [(c, reply)]) := by
  simp only [World.recorded, h]

/-! ### How an acquisition goes on -/

theorem tried_granted (a : Attempt) : Tried a [(a.call, .yes)] (some ⟨a.key, a.token⟩) where
  calls := rfl
  nonempty := List.cons_ne_nil _ _
  bounded := Nat.le_add_left 1 a.left
  stopped := List.not_mem_nil
  granted _ := rfl
  failed h := absurd List.mem_cons_self h

theorem tried_failed (hr : reply ≠ .yes) (hl : a.left = 0) : Tried a [(a.call, reply)] none where
  calls := rfl
  nonempty := List.cons_ne_nil _ _
  bounded := Nat.le_add_left 1 a.left
  stopped := List.not_mem_nil
  granted h := absurd (List.mem_singleton.mp h).symm hr
  failed _ := ⟨by rw [hl]; rfl, rfl⟩

theorem Tried.again {n : Nat} {made : List (Call × Reply)} {result : Option Grant}
    (h : Tried { a with left := n } made result) (hr : reply ≠ .yes) (hl : a.left = n + 1)
    (paused : Reply) :
    Tried a ((a.call, reply) :: (.pause a.backoff, paused) :: made) result := by
  have hreplies : replies ((a.call, reply) :: (.pause a.backoff, paused) :: made) =
      reply :: replies made := rfl
  obtain ⟨m, hm⟩ : ∃ m, (replies made).length = m + 1 :=
    Nat.exists_eq_succ_of_ne_zero fun h0 => h.nonempty (List.length_eq_zero_iff.mp h0)
  have hyes : .yes ∈ reply :: replies made ↔ .yes ∈ replies made := by
    rw [List.mem_cons]
    exact or_iff_right hr.symm
  constructor
  · have hcalls := h.calls
    rw [hm] at hcalls
    rw [hreplies, List.length_cons, hm, List.map_cons, List.map_cons, hcalls]
    rfl
  · exact List.cons_ne_nil _ _
  · have hb : (replies made).length ≤ n + 1 := h.bounded
    rw [hreplies, List.length_cons, hl]
    omega
  · rw [hreplies, List.dropLast_cons_of_ne_nil h.nonempty, List.mem_cons, not_or]
    exact ⟨hr.symm, h.stopped⟩
  · rw [hreplies, hyes]
    exact h.granted
  · rw [hreplies, hyes, List.length_cons, hl]
    intro hno
    obtain ⟨hlength, hresult⟩ := h.failed hno
    exact ⟨congrArg (· + 1) hlength, hresult⟩

/-- **Every acquisition in every world** ends with its result after calls of this kind, and writing
them down changes neither the result nor the world. -/
theorem exists_tried (w : World σ) (a : Attempt) (s : σ) (before : List (Call × Reply)) :
    ∃ made, w.recorded.attempts a (s, before) =
        ((w.attempts a s).1, (w.attempts a s).2, before ++ made) ∧
      Tried a made (w.attempts a s).1 := by
  generalize hleft : a.left = left
  induction left using Nat.strongRecOn generalizing a s before with
  | _ left ih =>
    obtain ⟨reply, s', hcall⟩ : ∃ reply s', w.answer a.call s = (reply, s') := ⟨_, _, rfl⟩
    rw [attempts_eq hcall, attempts_eq (recorded_answer hcall before)]
    by_cases hr : reply = .yes
    · subst hr
      exact ⟨[(a.call, .yes)], rfl, tried_granted a⟩
    rw [next_of_ne_yes hr]
    match hl : a.left with
    | 0 => exact ⟨[(a.call, reply)], rfl, tried_failed hr hl⟩
    | n + 1 =>
      obtain ⟨paused, s₁, hpause⟩ : ∃ paused s₁, w.answer (.pause a.backoff) s' = (paused, s₁) :=
        ⟨_, _, rfl⟩
      let b : Attempt := { a with left := n }
      obtain ⟨made, hmade, htried⟩ := ih n (by omega) b s₁
        (before ++ [(a.call, reply)] ++ [(.pause a.backoff, paused)]) rfl
      refine ⟨(a.call, reply) :: (.pause a.backoff, paused) :: made, ?_, ?_⟩
      · simp only [hpause, recorded_answer hpause]
        rw [hmade, List.append_assoc, List.append_assoc]
        rfl
      · simp only [hpause]
        exact htried.again hr hl paused

/-! ### Wishes -/

/-- **A wish** that makes no sense is refused for it, and any other one begins with all attempts
left. -/
theorem Request.begin_cases (r : Request) (token : String) :
    (r.Senseless ∧ ∃ reason, r.begin token = .error (.invalidLease reason)) ∨
    (¬ r.Senseless ∧ r.begin token = .ok ⟨r.key, token, r.ttl, r.backoff, r.retries⟩) := by
  have hkey : r.key.toList.isEmpty = true ↔ r.key = "" := by
    rw [List.isEmpty_iff, String.toList_eq_nil_iff]
  have httl : r.ttl.millis = 0 ↔ r.ttl.nanos < 1000000 := by
    unfold Duration.millis
    omega
  have hbackoff : r.backoff.isZero = true ↔ r.backoff.nanos = 0 := beq_iff_eq
  unfold Request.begin Request.fault? Request.Senseless
  simp only [hkey, httl, hbackoff]
  by_cases h₁ : r.key = ""
  · rw [if_pos h₁]
    exact Or.inl ⟨Or.inl h₁, _, rfl⟩
  rw [if_neg h₁]
  by_cases h₂ : r.ttl.nanos < 1000000
  · rw [if_pos h₂]
    exact Or.inl ⟨Or.inr (Or.inl h₂), _, rfl⟩
  rw [if_neg h₂]
  by_cases h₃ : 0 < r.retries ∧ r.backoff.nanos = 0
  · rw [if_pos h₃]
    exact Or.inl ⟨Or.inr (Or.inr h₃), _, rfl⟩
  rw [if_neg h₃]
  exact Or.inr ⟨by rintro (h | h | h) <;> contradiction, rfl⟩

theorem acquire_of_error {r : Request} {token : String} {e : GatewayError}
    (h : r.begin token = .error e) (w : World σ) (s : σ) :
    w.acquire r token s = (.error e, s) := by
  simp only [World.acquire, h]

theorem acquire_of_ok {r : Request} {token : String} (h : r.begin token = .ok a) (w : World σ)
    (s : σ) : w.acquire r token s = (.ok (w.attempts a s).1, (w.attempts a s).2) := by
  simp only [World.acquire, h]

/-- A wish that makes sense is tried. -/
theorem exists_acquire_tried {r : Request} {token : String} (h : r.begin token = .ok a)
    (w : World σ) (s : σ) : ∃ made g? s', w.acquire r token s = (.ok g?, s') ∧
      w.recorded.acquire r token (s, []) = (.ok g?, s', made) ∧ Tried a made g? := by
  obtain ⟨made, hmade, htried⟩ := exists_tried w a s []
  refine ⟨made, _, _, acquire_of_ok h w s, ?_, htried⟩
  rw [acquire_of_ok h, hmade]
  rfl

/-- **An acquisition tries until it is granted.** A wish that makes no sense is refused without a
call, and nothing else ever is. Any other one makes the same call, at most once more than there are
retries, with one pause between two calls and none at the end; the first yes ends it with a lease for
the key under the token, and it ends with none exactly if all its calls were made and none was
answered with yes. -/
theorem tries_until_granted (w : World σ) (r : Request) (token : String) (s : σ) :
    let result := (w.acquire r token s).1
    let made := (w.recorded.acquire r token (s, [])).2.2
    (w.recorded.acquire r token (s, [])).1 = result ∧
    (((∃ reason, result = .error (.invalidLease reason)) ∧ made = []) ↔ r.Senseless) ∧
    (∀ e, result = .error e → r.Senseless) ∧
    (¬ r.Senseless →
      made.map Prod.fst = (List.replicate (replies made).length
        (.setIfAbsent r.key token r.ttl)).intersperse (.pause r.backoff) ∧
      (replies made).length ≤ r.retries + 1 ∧
      .yes ∉ (replies made).dropLast ∧
      (.yes ∈ replies made → result = .ok (some ⟨r.key, token⟩)) ∧
      (result = .ok none ↔ .yes ∉ replies made) ∧
      (result = .ok none → (replies made).length = r.retries + 1)) := by
  intro result made
  rcases r.begin_cases token with ⟨hs, reason, hb⟩ | ⟨hs, hb⟩
  · have hrecorded := acquire_of_error hb w.recorded (s, [])
    have hresult : result = .error (.invalidLease reason) := by
      simp only [result, acquire_of_error hb]
    have hmade : made = [] := by
      simp only [made, hrecorded]
    rw [hmade, hresult, hrecorded]
    exact ⟨rfl, ⟨fun _ => hs, fun _ => ⟨⟨reason, rfl⟩, rfl⟩⟩, fun _ _ => hs, fun h => absurd hs h⟩
  · obtain ⟨calls, g?, s', hacquire, hrecorded, htried⟩ := exists_acquire_tried hb w s
    have hresult : result = .ok g? := by
      simp only [result, hacquire]
    have hmade : made = calls := by
      simp only [made, hrecorded]
    rw [hmade, hresult, hrecorded]
    have hnone : (.ok g? : Except GatewayError (Option Grant)) = .ok none ↔
        .yes ∉ replies calls := by
      rw [Except.ok.injEq]
      refine ⟨fun hn hyes => ?_, fun hno => (htried.failed hno).2⟩
      rw [htried.granted hyes] at hn
      cases hn
    refine ⟨rfl, ⟨?_, fun h => absurd h hs⟩, ?_, fun _ => ?_⟩
    · rintro ⟨⟨reason, he⟩, -⟩
      cases he
    · rintro e he
      cases he
    · refine ⟨htried.calls, htried.bounded, htried.stopped, fun hyes => ?_, hnone, fun hn => ?_⟩
      · rw [htried.granted hyes]
      · exact (htried.failed (hnone.mp hn)).1

/-- The key is busy, then the store cannot be reached, then the key is free: three calls with a pause
between them, though four retries were wished for. -/
theorem tries_until_granted_third :
    let r : Request := ⟨"k", .ofMillis 5, 4, .ofMillis 2⟩
    let s : Scripted := ⟨[.no, .unreachable, .yes], [], []⟩
    let made := (Scripted.world.recorded.acquire r "owner" (s, [])).2.2
    let call : Call := .setIfAbsent "k" "owner" (.ofMillis 5)
    ¬ r.Senseless ∧ replies made = [.no, .unreachable, .yes] ∧
      made.map Prod.fst = [call, .pause (.ofMillis 2), call, .pause (.ofMillis 2), call] ∧
      (Scripted.world.acquire r "owner" s).1 = .ok (some ⟨"k", "owner"⟩) := by
  intro r s made call
  have hs : ¬ r.Senseless := by
    unfold Request.Senseless
    decide
  have hreplies : replies made = [.no, .unreachable, .yes] := by decide +kernel
  obtain ⟨-, -, -, h⟩ := tries_until_granted Scripted.world r "owner" s
  obtain ⟨hcalls, -, -, hgranted, -⟩ := h hs
  refine ⟨hs, hreplies, ?_, hgranted ?_⟩
  · rw [hcalls, hreplies]
    rfl
  · rw [hreplies]
    decide

end EdgeGateway.Lease

import Mathlib.Data.List.Nodup
import Mathlib.Data.List.Perm.Basic
import Mathlib.Tactic.SplitIfs
import EdgeGateway.Proofs.Lease.Contest
import EdgeGateway.Proofs.Lease.Store

/-! # At most one lease of a key is live

In every contest the live entries of the key store are the live leases, and no two acquisitions
have one token (`Consistent`). So at most one lease of a key is live at any instant, a release
succeeds for exactly the leases that are live, and no release ends another lease or touches another
key (`exclusive`). -/

namespace EdgeGateway.Lease.Contest

/-- The tokens of the leases and of the acquisitions under way. -/
def owners (c : Contest) : List String :=
  c.leases.map (fun t => t.grant.token) ++ c.attempts.map (fun a => a.token)

/-- The entry that a lease has in the store. -/
def entryOf (t : Tenancy) : Entry := ⟨t.grant.token, t.since + t.ttl.nanos⟩

/-- The live entries of the store are the live leases. -/
def Held (s : Store) (now : Nat) (leases : List Tenancy) : Prop :=
  ∀ key e, s.holder? now key = some e ↔
    ∃ t ∈ leases, t.Live now ∧ t.grant.key = key ∧ entryOf t = e

/-- The store agrees with the leases, and all tokens are different and were used. -/
structure Consistent (c : Contest) : Prop where
  held : Held c.server.store c.server.now c.leases
  distinct : c.owners.Nodup
  used : ∀ token ∈ c.owners, token ∈ c.tokens

section

variable {s s' : Store} {now : Nat} {leases : List Tenancy} {key token : String} {ttl : Duration}
  {g : Grant}

/-! ### The store and the leases -/

theorem Held.holder (h : Held s now leases) {t : Tenancy} (ht : t ∈ leases) (hl : t.Live now) :
    s.holder? now t.grant.key = some (entryOf t) :=
  (h t.grant.key (entryOf t)).mpr ⟨t, ht, hl, rfl, rfl⟩

/-- A key without a holder gets a new lease as its holder. -/
theorem Held.take (h : Held s now leases) (hn : s.holder? now key = none)
    (hs : s'.entries = s.entries.insert key ⟨token, now + ttl.nanos⟩) :
    Held s' now (⟨⟨key, token⟩, now, ttl, false⟩ :: leases) := by
  intro key' e
  have hold : ∀ t ∈ leases, t.Live now → t.grant.key ≠ key := by
    rintro t ht hl rfl
    rw [h.holder ht hl] at hn
    cases hn
  rw [Store.holder?_insert hs]
  split_ifs with hk
  · subst hk
    rw [Option.filter_eq_some_iff]
    constructor
    · rintro ⟨he, hl⟩
      cases he
      exact ⟨_, List.mem_cons_self, ⟨rfl, of_decide_eq_true hl⟩, rfl, rfl⟩
    · rintro ⟨t, ht, hl, hk, rfl⟩
      rcases List.mem_cons.mp ht with rfl | ht
      · exact ⟨rfl, decide_eq_true hl.2⟩
      · exact absurd hk (hold t ht hl)
  · rw [h key' e]
    constructor
    · rintro ⟨t, ht, hrest⟩
      exact ⟨t, List.mem_cons_of_mem _ ht, hrest⟩
    · rintro ⟨t, ht, hl, hkey, he⟩
      rcases List.mem_cons.mp ht with rfl | ht
      · exact absurd hkey.symm hk
      · exact ⟨t, ht, hl, hkey, he⟩

theorem grant_eq {g g' : Grant} (hk : g.key = g'.key) (ht : g.token = g'.token) : g = g' := by
  obtain ⟨k, t⟩ := g
  rw [Grant.mk.injEq]
  exact ⟨hk, ht⟩

theorem live_close {t : Tenancy} : (t.close g).Live now ↔ t.Live now ∧ t.grant ≠ g := by
  unfold Tenancy.close
  split_ifs with ht
  · constructor
    · rintro ⟨hf, -⟩
      cases hf
    · rintro ⟨-, hne⟩
      exact absurd ht hne
  · exact ⟨fun hl => ⟨hl, ht⟩, fun hl => hl.1⟩

theorem grant_close (g : Grant) (t : Tenancy) : (t.close g).grant = t.grant := by
  unfold Tenancy.close
  split_ifs <;> rfl

theorem entryOf_close (g : Grant) (t : Tenancy) : entryOf (t.close g) = entryOf t := by
  unfold Tenancy.close
  split_ifs <;> rfl

/-- The lease that holds its key ends when the key is freed by its token. -/
theorem Held.free (h : Held s now leases) {e : Entry} (he : s.holder? now g.key = some e)
    (ht : e.token = g.token) (hs : s'.entries = s.entries.erase g.key) :
    Held s' now (leases.map (.close g)) := by
  -- a live lease of the key has the token of the entry
  have hgrant : ∀ t ∈ leases, t.Live now → (t.grant ≠ g ↔ t.grant.key ≠ g.key) := by
    intro t htm hl
    refine ⟨fun hne hk => hne ?_, fun hne hg => hne (by rw [hg])⟩
    have hh := h.holder htm hl
    rw [hk, he, Option.some.injEq] at hh
    rw [hh] at ht
    exact grant_eq hk ht
  intro key e'
  rw [Store.holder?_erase hs]
  constructor
  · intro hh
    split_ifs at hh with hk
    obtain ⟨t, htm, hl, hkey, hent⟩ := (h key e').mp hh
    refine ⟨t.close g, List.mem_map.mpr ⟨t, htm, rfl⟩, live_close.mpr ⟨hl, ?_⟩, ?_, ?_⟩
    · rw [hgrant t htm hl, hkey]
      exact hk
    · rw [grant_close, hkey]
    · rw [entryOf_close, hent]
  · rintro ⟨t', htm', hl', hkey, hent⟩
    obtain ⟨t, htm, rfl⟩ := List.mem_map.mp htm'
    obtain ⟨hl, hne⟩ := live_close.mp hl'
    rw [grant_close] at hkey
    rw [entryOf_close] at hent
    rw [hgrant t htm hl, hkey] at hne
    rw [if_neg hne]
    exact (h key e').mpr ⟨t, htm, hl, hkey, hent⟩

/-- An entry that is not live may go. -/
theorem Held.sweep (h : Held s now leases) (hn : s.holder? now key = none)
    (hs : s'.entries = s.entries.erase key) : Held s' now leases := by
  intro key' e
  rw [← h key' e, Store.holder?_erase hs]
  by_cases hk : key' = key
  · rw [if_pos hk, hk, hn]
  · rw [if_neg hk]

theorem Held.later (h : Held s now leases) {later : Nat} (hle : now ≤ later) :
    Held s later leases := by
  intro key e
  rw [Store.holder?_later hle, h key e]
  constructor
  · rintro ⟨⟨t, ht, hl, hk, rfl⟩, hlt⟩
    exact ⟨t, ht, ⟨hl.1, hlt⟩, hk, rfl⟩
  · rintro ⟨t, ht, hl, hk, rfl⟩
    have hlt := hl.2
    exact ⟨⟨t, ht, ⟨hl.1, by omega⟩, hk, rfl⟩, hlt⟩

end

/-! ### Steps -/

variable {c : Contest}

/-- One lease of a key is live at most. -/
theorem Consistent.eq_of_live (h : Consistent c) {t u : Tenancy} (ht : t ∈ c.leases)
    (hu : u ∈ c.leases) (htl : t.Live c.server.now) (hul : u.Live c.server.now)
    (hk : t.grant.key = u.grant.key) : t = u := by
  have hh := h.held.holder ht htl
  rw [hk, h.held.holder hu hul, Option.some.injEq] at hh
  have htok : t.grant.token = u.grant.token := (congrArg Entry.token hh).symm
  have hd : (c.leases.map fun t => t.grant.token).Nodup := (List.nodup_append.mp h.distinct).1
  exact List.inj_on_of_nodup_map hd ht hu htok

theorem Consistent.begin (h : Consistent c) {r : Request} {token : String} {a : Attempt}
    (hnew : token ∉ c.tokens) (ha : r.begin token = .ok a) :
    Consistent { c with attempts := c.attempts ++ [a], tokens := token :: c.tokens } := by
  have htok : a.token = token := by
    unfold Request.begin at ha
    split at ha
    · cases ha
    · cases ha
      rfl
  have hown : owners { c with attempts := c.attempts ++ [a], tokens := token :: c.tokens } =
      c.owners ++ [token] := by
    simp only [owners, List.map_append, List.map_cons, List.map_nil, htok, List.append_assoc]
  refine ⟨h.held, ?_, ?_⟩
  · rw [hown, List.nodup_append]
    refine ⟨h.distinct, List.nodup_singleton token, fun x hx y hy => ?_⟩
    rw [List.mem_singleton.mp hy]
    rintro rfl
    exact hnew (h.used x hx)
  · rw [hown]
    intro x hx
    rcases List.mem_append.mp hx with hx | hx
    · exact List.mem_cons_of_mem _ (h.used x hx)
    · exact List.mem_cons.mpr (Or.inl (List.mem_singleton.mp hx))

/-- An attempt that finds the key busy ends, or is followed by another one. -/
theorem Consistent.refused (h : Consistent c) {place : Nat} {a : Attempt}
    (hat : c.attempts[place]? = some a)
    (hcall : Local.world.answer a.call c.server = (.no, c.server)) :
    Consistent (c.step (.attempt place)) := by
  simp only [Contest.step, hat, hcall]
  cases hnext : a.next .no with
  | granted g => cases (granted_eq hnext).1
  | failed =>
    have hown : (c.leases.map (fun t => t.grant.token) ++
        (c.attempts.eraseIdx place).map (fun a => a.token)).Sublist c.owners :=
      (List.Sublist.refl _).append ((List.eraseIdx_sublist _ _).map _)
    exact ⟨h.held, h.distinct.sublist hown, fun x hx => h.used x (hown.subset hx)⟩
  | again b =>
    obtain ⟨hlt, hget⟩ := List.getElem?_eq_some_iff.mp hat
    have hset : (c.attempts.set place b).map (fun a => a.token) =
        c.attempts.map fun a => a.token := by
      have hlt' : place < (c.attempts.map fun a => a.token).length := by simpa using hlt
      have htok : b.token = (c.attempts.map fun a => a.token)[place] := by
        rw [again_eq hnext, List.getElem_map, hget]
      rw [List.map_set, htok, List.set_getElem_self]
    have hown : owners { c with attempts := c.attempts.set place b } = c.owners := by
      unfold owners
      rw [hset]
    exact ⟨h.held, hown ▸ h.distinct, hown ▸ h.used⟩

/-- An attempt that takes the key ends with a new lease. -/
theorem Consistent.granted (h : Consistent c) {place : Nat} {a : Attempt} {s : Store}
    (hat : c.attempts[place]? = some a) (hn : c.server.store.holder? c.server.now a.key = none)
    (hs : s.entries = c.server.store.entries.insert a.key ⟨a.token, c.server.now + a.ttl.nanos⟩)
    (hcall : Local.world.answer a.call c.server = (.yes, ⟨s, c.server.now⟩)) :
    Consistent (c.step (.attempt place)) := by
  have hnext : a.next .yes = .granted ⟨a.key, a.token⟩ := rfl
  simp only [Contest.step, hat, hcall, hnext]
  obtain ⟨hlt, hget⟩ := List.getElem?_eq_some_iff.mp hat
  have hperm : (a.token :: c.leases.map (fun t => t.grant.token) ++
      (c.attempts.eraseIdx place).map (fun a => a.token)).Perm c.owners := by
    have hp := (List.getElem_cons_eraseIdx_perm hlt).map fun a => a.token
    rw [hget, List.map_cons] at hp
    exact List.perm_middle.symm.trans (hp.append_left _)
  exact ⟨h.held.take hn hs, hperm.nodup_iff.mpr h.distinct,
    fun x hx => h.used x (hperm.mem_iff.mp hx)⟩

theorem Consistent.attempt (h : Consistent c) (place : Nat) :
    Consistent (c.step (.attempt place)) := by
  match hat : c.attempts[place]? with
  | none =>
    simp only [Contest.step, hat]
    exact h
  | some a =>
    have hcall := answer_call a c.server
    rcases c.server.store.setIfAbsent_cases c.server.now a.key a.token a.ttl with
      ⟨hb, hs, -⟩ | ⟨hb, hn, hs⟩
    · rw [hb, hs] at hcall
      exact h.refused hat hcall
    · rw [hb] at hcall
      exact h.granted hat hn hs hcall

theorem Consistent.release (h : Consistent c) (g : Grant) : Consistent (c.step (.release g)) := by
  have hown : owners { c with leases := c.leases.map (.close g) } = c.owners := by
    unfold owners
    rw [List.map_map]
    congr 2
    funext t
    exact congrArg Grant.token (grant_close g t)
  simp only [Contest.step, release_eq]
  rcases c.server.store.deleteIfOwner_cases c.server.now g.key g.token with
    ⟨hb, ⟨e, he, ht⟩, hs⟩ | ⟨hb, -, hs | ⟨hn, hs⟩⟩
  · rw [if_pos hb]
    exact ⟨h.held.free he ht hs, hown ▸ h.distinct, hown ▸ h.used⟩
  · rw [hb, hs]
    exact h
  · rw [hb]
    exact ⟨h.held.sweep hn hs, h.distinct, h.used⟩

theorem Consistent.step (h : Consistent c) (a : Action) : Consistent (c.step a) := by
  cases a with
  | begin r token =>
    show Consistent (if token ∈ c.tokens then c else _)
    split_ifs with hnew
    · exact h
    · match hr : r.begin token with
      | .ok a => exact h.begin hnew hr
      | .error e => exact h
  | attempt place => exact h.attempt place
  | release g => exact h.release g
  | pass length => exact ⟨h.held.later (Nat.le_add_right _ _), h.distinct, h.used⟩

theorem Consistent.run (h : Consistent c) (as : List Action) : Consistent (c.run as) := by
  induction as generalizing c with
  | nil => exact h
  | cons a as ih => exact ih (h.step a)

theorem consistent_start (now : Nat) : Consistent (start now) where
  held key e := by
    constructor
    · intro h
      cases h
    · rintro ⟨t, ht, -⟩
      cases ht
  distinct := .nil
  used token h := by cases h

/-! ### What follows for the leases -/

/-- A release succeeds for the grants of live leases. -/
theorem Consistent.release_iff (h : Consistent c) (g : Grant) :
    (Local.world.release g c.server).1 = true ↔
      ∃ t ∈ c.leases, t.grant = g ∧ t.Live c.server.now := by
  rw [release_eq]
  constructor
  · intro hb
    rcases c.server.store.deleteIfOwner_cases c.server.now g.key g.token with
      ⟨-, ⟨e, he, ht⟩, -⟩ | ⟨hf, -⟩
    · obtain ⟨t, htm, hl, hk, rfl⟩ := (h.held g.key e).mp he
      exact ⟨t, htm, grant_eq hk ht, hl⟩
    · rw [hf] at hb
      cases hb
  · rintro ⟨t, htm, rfl, hl⟩
    rcases c.server.store.deleteIfOwner_cases c.server.now t.grant.key t.grant.token with
      ⟨hb, -⟩ | ⟨-, hne, -⟩
    · exact hb
    · exact absurd rfl (hne _ (h.held.holder htm hl))

theorem get?_release {g : Grant} {key : String} (hne : key ≠ g.key) (l : Local) :
    (Local.world.release g l).2.store.entries.get? key = l.store.entries.get? key := by
  rw [release_eq]
  rcases l.store.deleteIfOwner_cases l.now g.key g.token with
    ⟨-, -, hs⟩ | ⟨-, -, hs | ⟨-, hs⟩⟩
  · simp only [hs, KeyMap.get?_erase, if_neg hne]
  · simp only [hs]
  · simp only [hs, KeyMap.get?_erase, if_neg hne]

/-- A live lease of another grant survives a release, and keeps its key. -/
theorem Consistent.keeps (h : Consistent c) {g : Grant} {t : Tenancy} (ht : t ∈ c.leases)
    (hl : t.Live c.server.now) (hne : t.grant ≠ g) :
    t ∈ (c.step (.release g)).leases ∧
      (c.step (.release g)).server.store.holder? c.server.now t.grant.key = some (entryOf t) := by
  have hmem : t ∈ (c.step (.release g)).leases := by
    simp only [Contest.step]
    split_ifs
    · exact List.mem_map.mpr ⟨t, ht, if_neg hne⟩
    · exact ht
  have hnow : (c.step (.release g)).server.now = c.server.now := by
    simp only [Contest.step, release_eq]
  have hh := (h.release g).held
  rw [hnow] at hh
  exact ⟨hmem, hh.holder hmem hl⟩

theorem released_step {g : Grant} (h : ∃ t ∈ c.leases, t.grant = g ∧ t.released = true)
    (a : Action) : ∃ t ∈ (c.step a).leases, t.grant = g ∧ t.released = true := by
  obtain ⟨t, ht, hg, hr⟩ := h
  cases a with
  | begin r token =>
    refine ⟨t, ?_, hg, hr⟩
    show t ∈ (if token ∈ c.tokens then c else _).leases
    split_ifs
    · exact ht
    · cases r.begin token <;> exact ht
  | attempt place =>
    refine ⟨t, ?_, hg, hr⟩
    simp only [Contest.step]
    cases c.attempts[place]? with
    | none => exact ht
    | some a =>
      dsimp only
      cases a.next (Local.world.answer a.call c.server).1 with
      | granted g' => exact List.mem_cons_of_mem _ ht
      | failed => exact ht
      | again b => exact ht
  | release g' =>
    simp only [Contest.step]
    split_ifs
    · refine ⟨t.close g', List.mem_map.mpr ⟨t, ht, rfl⟩, (grant_close g' t).trans hg, ?_⟩
      unfold Tenancy.close
      split_ifs
      · rfl
      · exact hr
    · exact ⟨t, ht, hg, hr⟩
  | pass length => exact ⟨t, ht, hg, hr⟩

/-- A lease that was released stays so. -/
theorem released_run {g : Grant} (h : ∃ t ∈ c.leases, t.grant = g ∧ t.released = true)
    (as : List Action) : ∃ t ∈ (c.run as).leases, t.grant = g ∧ t.released = true := by
  induction as generalizing c with
  | nil => exact h
  | cons a as ih => exact ih (released_step h a)

/-- The grant of a released lease cannot be released again. -/
theorem Consistent.release_again (h : Consistent c) {g : Grant}
    (hr : ∃ t ∈ c.leases, t.grant = g ∧ t.released = true) :
    (Local.world.release g c.server).1 = false := by
  rw [Bool.eq_false_iff, Ne, h.release_iff]
  rintro ⟨u, hu, hug, hl⟩
  obtain ⟨t, ht, htg, htr⟩ := hr
  have hd : (c.leases.map fun t => t.grant.token).Nodup := (List.nodup_append.mp h.distinct).1
  obtain rfl := List.inj_on_of_nodup_map hd ht hu (by rw [htg, hug])
  rw [hl.1] at htr
  cases htr

theorem Consistent.length_le_one (h : Consistent c) (key : String) :
    (c.leases.filter fun t => t.grant.key = key ∧ t.Live c.server.now).length ≤ 1 := by
  have hd : (c.leases.filter fun t => t.grant.key = key ∧ t.Live c.server.now).Nodup :=
    ((List.nodup_append.mp h.distinct).1.of_map _).filter _
  have heq : ∀ t ∈ c.leases.filter fun t => t.grant.key = key ∧ t.Live c.server.now,
      ∀ u ∈ c.leases.filter fun t => t.grant.key = key ∧ t.Live c.server.now, t = u := by
    intro t ht u hu
    obtain ⟨htm, htl⟩ := List.mem_filter.mp ht
    obtain ⟨hum, hul⟩ := List.mem_filter.mp hu
    obtain ⟨htk, htl⟩ := of_decide_eq_true htl
    obtain ⟨huk, hul⟩ := of_decide_eq_true hul
    exact h.eq_of_live htm hum htl hul (htk.trans huk.symm)
  generalize c.leases.filter (fun t => t.grant.key = key ∧ t.Live c.server.now) = ls at hd heq ⊢
  match ls, hd, heq with
  | [], _, _ => exact Nat.zero_le 1
  | [t], _, _ => exact Nat.le_refl 1
  | t :: u :: rest, hd, heq =>
    have htu := heq t List.mem_cons_self u (List.mem_cons_of_mem _ List.mem_cons_self)
    rw [htu] at hd
    exact absurd List.mem_cons_self (List.nodup_cons.mp hd).1

/-- **Leases exclude each other.** Whatever the callers do and however long they wait, at most one
lease of a key is live; a release succeeds exactly for a live lease, and no second time; it never
touches another key, and every other live lease keeps its key. -/
theorem exclusive (now : Nat) (as : List Action) :
    let c := (start now).run as
    (∀ key, (c.leases.filter fun t => t.grant.key = key ∧ t.Live c.server.now).length ≤ 1) ∧
    (∀ g, (Local.world.release g c.server).1 = true ↔
      ∃ t ∈ c.leases, t.grant = g ∧ t.Live c.server.now) ∧
    (∀ g, (Local.world.release g c.server).1 = true → ∀ bs,
      (Local.world.release g ((c.step (.release g)).run bs).server).1 = false) ∧
    (∀ g key, key ≠ g.key → (Local.world.release g c.server).2.store.entries.get? key =
      c.server.store.entries.get? key) ∧
    ∀ g, ∀ t ∈ c.leases, t.Live c.server.now → t.grant ≠ g →
      t ∈ (c.step (.release g)).leases ∧
      (c.step (.release g)).server.store.holder? c.server.now t.grant.key = some (entryOf t) := by
  intro c
  have hc : Consistent c := (consistent_start now).run as
  refine ⟨hc.length_le_one, hc.release_iff, fun g hg bs => ?_,
    fun g key hne => get?_release hne _, fun g t ht hl hne => hc.keeps ht hl hne⟩
  obtain ⟨t, ht, htg, -⟩ := (hc.release_iff g).mp hg
  have hr : ∃ t ∈ (c.step (.release g)).leases, t.grant = g ∧ t.released = true := by
    simp only [Contest.step, hg, if_true]
    exact ⟨t.close g, List.mem_map.mpr ⟨t, ht, rfl⟩, (grant_close g t).trans htg, by
      rw [Tenancy.close, if_pos htg]⟩
  exact ((hc.step (.release g)).run bs).release_again (released_run hr bs)

/-- The first lease of a key runs out while another caller tries again for the key; its release then
fails, and that of the second lease succeeds. -/
theorem exclusive_takeover :
    let c := (start 0).run [.begin ⟨"k", .ofMillis 2, 0, ⟨0⟩⟩ "first", .attempt 0,
      .begin ⟨"k", .ofMillis 2, 1, .ofMillis 2⟩ "second", .attempt 0, .pass (.ofMillis 2),
      .attempt 0]
    (∀ key, (c.leases.filter fun t => t.grant.key = key ∧ t.Live c.server.now).length ≤ 1) ∧
      c.leases.length = 2 ∧ (Local.world.release ⟨"k", "first"⟩ c.server).1 = false ∧
      (Local.world.release ⟨"k", "second"⟩ c.server).1 = true := by
  intro c
  exact ⟨(exclusive 0 _).1, by decide +kernel, by decide +kernel, by decide +kernel⟩

end EdgeGateway.Lease.Contest

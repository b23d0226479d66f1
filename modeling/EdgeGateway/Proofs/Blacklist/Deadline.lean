import EdgeGateway.Admin.Basic
import EdgeGateway.Proofs.Blacklist.Canonical
import EdgeGateway.Proofs.Refresh.SingleFlight

/-! # Deadlines

An entry that lasts a while should be listed until the while is over, or until the last reading of
the clock if that comes first; a value that is loaded should be due in the same way. A while counts
in milliseconds of 64 bits, so both hold just of a while that is `Countable`: one that 64 bits can
hold, or whose lowest 64 bits are enough to get to the last reading.

* `get?_run`: nothing takes an entry off before it expires but what is done to it on purpose.
* `lasts_until_deadline`: entries and loaded values have their deadlines just if the while is
  countable, and then a longer while ends no earlier.
* `long_ttl_cut`: of 584 million years, 384 milliseconds are left. -/

namespace EdgeGateway

/-- The milliseconds of the duration can be counted from a reading on: they fit in 64 bits, or those
that do lead to the last reading. -/
def Duration.Countable (d : Duration) (now : UInt64) : Prop :=
  d.millis < 2 ^ 64 ∨ 2 ^ 64 - 1 ≤ now.toNat + d.millis % 2 ^ 64

/-- A reading and a duration are added as they should be just if the duration is countable. -/
theorem saturatingAdd_millis_eq_iff (now : UInt64) (d : Duration) :
    (saturatingAdd now d.millis.toUInt64).toNat = min (now.toNat + d.millis) (2 ^ 64 - 1) ↔
      d.Countable now := by
  have hmod : d.millis % 2 ^ 64 ≤ d.millis := Nat.mod_le _ _
  have hlt : d.millis < 2 ^ 64 ↔ d.millis % 2 ^ 64 = d.millis := by omega
  rw [toNat_saturatingAdd_millis, Duration.Countable, hlt]
  unfold UInt64.size
  omega

namespace Blacklist

/-! ### The expiry of an entry -/

theorem toNat_expiryAfter (now : UInt64) (d : Duration) :
    (expiryAfter now d).toNat = max 1 (saturatingAdd now d.millis.toUInt64).toNat := by
  unfold expiryAfter
  generalize saturatingAdd now d.millis.toUInt64 = s
  show (if (1 : UInt64) ≤ s then s else 1).toNat = _
  have hle : (1 : UInt64) ≤ s ↔ 1 ≤ s.toNat := UInt64.le_iff_toNat_le
  by_cases h : (1 : UInt64) ≤ s
  · have hs := hle.mp h
    rw [if_pos h]
    omega
  · have hs := mt hle.mpr h
    rw [if_neg h]
    show 1 = max 1 s.toNat
    omega

/-- An entry that lasts a while is not one that lasts for ever. -/
theorem expiryAfter_ne_zero (now : UInt64) (d : Duration) : expiryAfter now d ≠ 0 := by
  intro h
  have hexpiry := toNat_expiryAfter now d
  rw [h] at hexpiry
  have hzero : (0 : UInt64).toNat = 0 := rfl
  omega

theorem expiryAfter_eq_iff (now : UInt64) (d : Duration) :
    (expiryAfter now d).toNat = max 1 (min (now.toNat + d.millis) (2 ^ 64 - 1)) ↔
      d.Countable now := by
  rw [toNat_expiryAfter, ← saturatingAdd_millis_eq_iff]
  have hsum := toNat_saturatingAdd_millis now d
  unfold UInt64.size at hsum
  omega

/-- A longer while that is countable ends no earlier than a shorter one. -/
theorem expiryAfter_le {now : UInt64} {d d' : Duration} (h : d.millis ≤ d'.millis)
    (hd' : d'.Countable now) : expiryAfter now d ≤ expiryAfter now d' := by
  have hlater := (expiryAfter_eq_iff now d').mpr hd'
  have hearlier := toNat_expiryAfter now d
  have hsum := toNat_saturatingAdd_millis now d
  unfold UInt64.size at hsum
  rw [UInt64.le_iff_toNat_le]
  omega

/-! ### What keeps an entry -/

/-- The operation does not write or remove the entry of `k` on purpose, and does not look it up when
the clock shows `e` or more. -/
def Operation.Spares (k : String) (e : UInt64) : Operation → Prop
  | .add ip _ | .addFor ip _ _ | .remove ip => key ip ≠ k
  | .bootstrap _ f => ∀ t, f.text? = some t → k ∉ addresses t.toList
  | .contains ip at_ => key ip = k → at_.wall < e
  | .reload _ | .replace _ => True

variable {b : Blacklist} {k : String} {e : UInt64}

theorem get?_foldl_insert (d : Expiries) {ips : List String} (h : k ∉ ips) :
    (ips.foldl (fun d ip => d.insert ip 0) d).get? k = d.get? k := by
  induction ips generalizing d with
  | nil => rfl
  | cons ip ips ih =>
    have hip : k ≠ ip := List.ne_of_not_mem_cons h
    have hips : k ∉ ips := List.not_mem_of_not_mem_cons h
    rw [List.foldl_cons, ih _ hips, KeyMap.get?_insert, if_neg hip]

theorem get?_bootstrap (h : b.dynamic.get? k = some e) {path : String} {f : File}
    (hf : ∀ t, f.text? = some t → k ∉ addresses t.toList) :
    (b.perform (.bootstrap path f)).dynamic.get? k = some e := by
  rw [perform, bootstrap.eq_def]
  split
  · exact h
  · exact h
  · next ht => exact (get?_foldl_insert b.dynamic (hf _ ht)).trans h

/-- One operation that spares the entry keeps it. -/
theorem get?_perform (h : b.dynamic.get? k = some e) {op : Operation} (hop : op.Spares k e) :
    (b.perform op).dynamic.get? k = some e := by
  have herase {ip : String} (hne : key ip ≠ k) : (b.dynamic.erase (key ip)).get? k = some e := by
    rw [KeyMap.get?_erase, if_neg (Ne.symm hne), h]
  cases op with
  | add ip expiry => exact (get?_perform_add expiry hop).trans h
  | addFor ip now d => exact (get?_perform_add (expiryAfter now d) hop).trans h
  | remove ip => exact herase hop
  | bootstrap path f => exact get?_bootstrap h hop
  | contains ip at_ =>
    rw [perform]
    obtain ⟨due, hb | ⟨⟨e', he', hexp⟩, hb⟩⟩ := b.contains_snd ip at_
    · rw [hb]
      exact h
    · rw [hb]
      by_cases hk : key ip = k
      · -- the look-up sees the entry before it expires, and so does not take it off
        have hwall : at_.wall < e := hop hk
        rw [hk, h, Option.some.injEq] at he'
        subst he'
        rw [(isExpired_eq_false_iff e at_.wall).mpr (Or.inr hwall)] at hexp
        cases hexp
      · exact herase hk
  | reload refresh => exact h
  | replace source => exact h

/-- **An entry is kept** by any operations that spare it. -/
theorem get?_run (h : b.dynamic.get? k = some e) {ops : List Operation}
    (hops : ∀ op ∈ ops, op.Spares k e) : (b.run ops).dynamic.get? k = some e := by
  induction ops generalizing b with
  | nil => exact h
  | cons op ops ih =>
    have hkept := get?_perform h (hops op (by simp))
    exact ih hkept fun op' hop' => hops op' (by simp [hop'])

/-- An entry that has not expired is reported. -/
theorem reported_of_lt {ip : String} (h : b.dynamic.get? (key ip) = some e) {at_ : Readings}
    (hwall : at_.wall < e) :
    (b.contains ip at_).1.isSome ∧ (key ip, e) ∈ b.entries at_.wall := by
  have hlive : isExpired e at_.wall = false := (isExpired_eq_false_iff e at_.wall).mpr (.inr hwall)
  constructor
  · rw [contains_fst, h]
    simp only [Option.any_some, hlive, Bool.not_false, if_true]
    split <;> rfl
  · have hmem := (b.dynamic.get?_eq_some_iff).mp h
    exact List.mem_filter.mpr ⟨hmem, by simp [hlive]⟩

/-! ### Deadlines -/

universe u v

/-- **What lasts a while lasts until its deadline**, the end of the while or the last reading of the
clock, just if the while is countable. An entry that is listed for a while, over the admin interface
or not, never lasts for ever; it is reported by each look-up before its expiry, whatever else is
done in between; and a longer while that is countable ends no earlier. A value that is loaded is due
when the window is over, with the same exception. -/
theorem lasts_until_deadline (b : Blacklist) {ip : String} {a : Address}
    (hip : Address.parse? (Text.trim ip.toList) = some a) (now : UInt64) (d : Duration) :
    let e := expiryAfter now d
    let b' := { b with dynamic := b.dynamic.insert a.text e }
    b.addFor ip now d = .ok b' ∧
    (∀ (admin : Admin) (body : Admin.Body) (secs refresh : UInt64) (n : Int),
      admin.blacklist = b → body.read (Decode.document Admin.Listing.ofTree) = .ok ⟨ip, some secs⟩ →
      secs ≠ 0 → d = .ofSeconds secs.toNat →
      admin.handle .addAddress body ⟨now, refresh⟩ n =
        (.done 201 "IP blacklisted", { admin with blacklist := b' })) ∧
    e ≠ 0 ∧
    (e.toNat = max 1 (min (now.toNat + d.millis) (2 ^ 64 - 1)) ↔ d.Countable now) ∧
    (∀ ops, (∀ op ∈ ops, op.Spares a.text e) → ∀ at_ : Readings, at_.wall < e →
      ((b'.run ops).contains ip at_).1.isSome ∧ (a.text, e) ∈ (b'.run ops).entries at_.wall) ∧
    (∀ d' : Duration, d.millis ≤ d'.millis → d'.Countable now → e ≤ expiryAfter now d') ∧
    ∀ {ε : Type v} {α : Type u} (mode : Refresh.Mode) (old v : α) (c c' : Refresh.Cell α),
      c.settle mode d now old (.ok v : Except ε α) = (.ok v, c') →
      (c'.due.toNat = min (now.toNat + d.millis) (2 ^ 64 - 1) ↔ d.Countable now) := by
  intro e b'
  have hadd : b.addFor ip now d = .ok b' := b.add_of_parse? hip e
  have hget : b'.dynamic.get? (key ip) = some e := by
    rw [key_of_parse? hip, KeyMap.get?_insert, if_pos rfl]
  refine ⟨hadd, ?_, expiryAfter_ne_zero now d, expiryAfter_eq_iff now d, ?_, ?_, ?_⟩
  · intro admin body secs refresh n hb hbody hsecs hd
    have hlist : Admin.list admin.blacklist ⟨ip, some secs⟩ now = .ok b' := by
      -- only a while of zero seconds is refused before it gets here
      simp only [Admin.list, hb, ← hd, hadd]
      rfl
    simp only [Admin.handle, hbody, Except.bind, hlist]
  · intro ops hops at_ hwall
    rw [← key_of_parse? hip] at hops ⊢
    exact reported_of_lt (get?_run hget hops) hwall
  · intro d' hle hd'
    exact expiryAfter_le hle hd'
  · intro ε α mode old v c c' hc
    have hdue : c' = Refresh.Cell.stored d v now := (congrArg Prod.snd hc).symm
    rw [hdue]
    exact saturatingAdd_millis_eq_iff now d

/-- An address is listed for a minute: it is still reported in the last millisecond of it, after a
reload and after look-ups of it and of another address. -/
theorem lasts_until_deadline_minute :
    let ip := " 192.0.2.1"
    let now : UInt64 := 1700000000000
    let ops : List Operation := [.reload 0, .contains "192.0.2.1" ⟨now, 0⟩, .remove "192.0.2.2",
      .contains "192.0.2.1" ⟨1700000059998, 9⟩]
    Address.parse? (Text.trim ip.toList) = some (.v4 192 0 2 1) ∧
    (Duration.ofSeconds 60).Countable now ∧
    ∃ b', empty.addFor ip now (.ofSeconds 60) = .ok b' ∧
      ((b'.run ops).contains ip ⟨1700000059999, 9⟩).1.isSome ∧
      b'.entries 1700000059999 = [("192.0.2.1", 1700000060000)] := by
  intro ip now ops
  have hip : Address.parse? (Text.trim ip.toList) = some (.v4 192 0 2 1) := by decide +kernel
  have hcount : (Duration.ofSeconds 60).Countable now := Or.inl (by decide)
  have htext : (Address.v4 192 0 2 1).text = "192.0.2.1" := by decide +kernel
  have hexpiry : expiryAfter now (.ofSeconds 60) = 1700000060000 := by decide +kernel
  have hother : key "192.0.2.2" ≠ "192.0.2.1" := by decide +kernel
  have hops : ∀ op ∈ ops, op.Spares "192.0.2.1" 1700000060000 := by
    simp [ops, now, Operation.Spares, hother]
  obtain ⟨hadd, -, -, -, hlive, -⟩ :=
    lasts_until_deadline.{0, 0} empty hip now (.ofSeconds 60)
  rw [htext, hexpiry] at hadd hlive
  have hreport := hlive ops hops ⟨1700000059999, 9⟩ (by decide)
  exact ⟨hip, hcount, _, hadd, hreport.1, by decide +kernel⟩

/-- An address that is listed over the admin interface for 18446744073709552 seconds, 584 million
years, is forgotten within a second, sooner than one that is listed for a second. -/
theorem long_ttl_cut :
    let d : Duration := .ofSeconds 18446744073709552
    let at_ : Readings := ⟨1700000000000, 0⟩
    let body := Admin.Body.complete
      "\x7b\"ip\":\"192.0.2.1\",\"ttlSecs\":18446744073709552\x7d".toUTF8
    let answer := (default : Admin).handle .addAddress body at_ 0
    answer.1 = .done 201 "IP blacklisted" ∧
    answer.2.blacklist.entries at_.wall = [("192.0.2.1", 1700000000384)] ∧
    max 1 (min (at_.wall.toNat + d.millis) (2 ^ 64 - 1)) = 2 ^ 64 - 1 ∧
    (answer.2.blacklist.contains "192.0.2.1" ⟨1700000001000, 0⟩).1 = none ∧
    expiryAfter at_.wall d < expiryAfter at_.wall (.ofSeconds 1) ∧
    (Refresh.Cell.stored d "list" at_.wall).due = 1700000000384 := by
  intro d at_ body answer
  have hread : body.read (Decode.document Admin.Listing.ofTree) =
      .ok ⟨"192.0.2.1", some 18446744073709552⟩ := by decide +kernel
  have hanswer : answer = (.done 201 "IP blacklisted", { (default : Admin) with
      blacklist := { (default : Blacklist) with
        dynamic := KeyMap.empty.insert "192.0.2.1" 1700000000384 } }) := by
    show (default : Admin).handle .addAddress body at_ 0 = _
    simp only [Admin.handle, hread]
    rfl
  rw [hanswer]
  exact ⟨rfl, by decide +kernel, by decide +kernel, by decide +kernel, by decide +kernel,
    by decide +kernel⟩

end Blacklist
end EdgeGateway

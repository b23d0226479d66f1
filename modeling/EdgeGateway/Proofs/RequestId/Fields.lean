import EdgeGateway.Proofs.RequestId.Increasing

/-! # What an id tells

An id is taken apart into its fields by shifts and masks. Parts in their ranges are read back from
the id that they make, and every number of 63 bits is the id of its fields (`decompose_compose`,
`compose_decompose`).

A generator puts its own place into every id: of a time that does not fit only the lowest bits are
kept, but the fields of the datacenter and the worker stay what they are (`decompose_placed`). So an
id tells who has issued it, whatever the clocks show, and two generators of different places never
issue one id (`layout_lossless`). -/

namespace EdgeGateway.RequestId

variable {p : Parts}

/-! ### Fields -/

theorem toNat_field {a s m : UInt64} {k n : Nat} (hs : s.toNat = k) (hk : k < 64)
    (hm : m.toNat = 2 ^ n - 1) : ((a >>> s) &&& m).toNat = a.toNat / 2 ^ k % 2 ^ n := by
  rw [toNat_and_mask hm, UInt64.toNat_shiftRight, hs, Nat.mod_eq_of_lt hk,
    Nat.shiftRight_eq_div_pow]

theorem toNat_datacenter (id : UInt64) :
    (decompose id).datacenter.toNat = id.toNat / 2 ^ 17 % 2 ^ 5 :=
  toNat_field rfl (by omega) rfl

theorem toNat_worker (id : UInt64) : (decompose id).worker.toNat = id.toNat / 2 ^ 12 % 2 ^ 5 :=
  toNat_field rfl (by omega) rfl

theorem toNat_sequence (id : UInt64) : (decompose id).sequence.toNat = id.toNat % 2 ^ 12 :=
  toNat_and_mask rfl

/-- The time of an id is not before the epoch, and always fits. -/
theorem toNat_timestamp (id : UInt64) :
    (decompose id).timestamp.toNat = id.toNat / 2 ^ 22 % 2 ^ 41 + epoch.toNat := by
  have hfield : ((id >>> 22) &&& timestampMask).toNat = id.toNat / 2 ^ 22 % 2 ^ 41 :=
    toNat_field rfl (by omega) (by decide)
  have hepoch : epoch.toNat = 1288834974657 := rfl
  show (((id >>> 22) &&& timestampMask) + epoch).toNat = _
  rw [UInt64.toNat_add, hfield, Nat.mod_eq_of_lt (by omega)]

/-- The fields of a number are in their ranges. -/
theorem inRange_decompose (id : UInt64) : (decompose id).InRange where
  fromEpoch := by
    rw [toNat_timestamp]
    omega
  toEnd := by
    rw [toNat_timestamp]
    omega
  datacenter := by
    rw [toNat_datacenter]
    omega
  worker := by
    rw [toNat_worker]
    omega
  sequence := by
    rw [toNat_sequence]
    omega

/-! ### Ids and their fields -/

/-- **A number of 63 bits is the id of its fields.** -/
theorem compose_decompose {id : UInt64} (h : id.toNat < 2 ^ 63) : compose (decompose id) = id := by
  rw [← UInt64.toNat_inj, toNat_compose (inRange_decompose id), toNat_timestamp, toNat_datacenter,
    toNat_worker, toNat_sequence]
  omega

/-- The place and the number are read back from an id, even if its time does not fit. -/
theorem decompose_placed (h : p.Placed) :
    (decompose (compose p)).datacenter = p.datacenter ∧
      (decompose (compose p)).worker = p.worker ∧
      (decompose (compose p)).sequence = p.sequence := by
  have hd := h.datacenter
  have hw := h.worker
  have hs := h.sequence
  have hid := toNat_compose_of_placed h
  refine ⟨?_, ?_, ?_⟩
  · rw [← UInt64.toNat_inj, toNat_datacenter, hid]
    omega
  · rw [← UInt64.toNat_inj, toNat_worker, hid]
    omega
  · rw [← UInt64.toNat_inj, toNat_sequence, hid]
    omega

/-- **Parts in their ranges are read back** from the id that they make. -/
theorem decompose_compose (h : p.InRange) : decompose (compose p) = p := by
  have he := h.fromEpoch
  have ht := h.toEnd
  have hd := h.datacenter
  have hw := h.worker
  have hs := h.sequence
  have htime : (decompose (compose p)).timestamp = p.timestamp := by
    rw [← UInt64.toNat_inj, toNat_timestamp, toNat_compose h]
    omega
  obtain ⟨hdatacenter, hworker, hsequence⟩ := decompose_placed h.placed
  exact (Parts.mk.injEq ..).mpr ⟨htime, hdatacenter, hworker, hsequence⟩

namespace Generator

/-! ### What a call does -/

/-- The parts of the id that a generator has issued last. -/
def parts (g : Generator) : Parts := ⟨g.last, g.datacenter, g.worker, g.sequence⟩

/-- The generator `g'` has issued the id at the last of the readings that the call has used. -/
structure Stamps (g g' : Generator) (used : List UInt64) (id : UInt64) : Prop where
  sound : g'.Sound
  worker : g'.worker = g.worker
  datacenter : g'.datacenter = g.datacenter
  fromEpoch : epoch.toNat ≤ g'.last.toNat
  reading : ∃ front, used = front ++ [g'.last]
  id_eq : id = compose g'.parts

variable {g g' w : Generator} {now : UInt64} {rs rest : List UInt64} {o : Outcome}

theorem stamps_issue (hw : w.Sound) (hworker : w.worker = g.worker)
    (hdatacenter : w.datacenter = g.datacenter) (he : epoch ≤ now) (front : List UInt64) :
    Stamps g { w with last := now } (front ++ [now])
      (compose ⟨now, w.datacenter, w.worker, w.sequence⟩) where
  sound := ⟨hw.worker, hw.datacenter, hw.sequence⟩
  worker := hworker
  datacenter := hdatacenter
  fromEpoch := UInt64.le_iff_toNat_le.mp he
  reading := ⟨front, rfl⟩
  id_eq := rfl

/-- A call that waits passes over readings that are not later. -/
theorem await?_append {front : List UInt64} (h : ∀ t ∈ front, t ≤ w.last) (rs : List UInt64) :
    w.await? (front ++ rs) = w.await? rs := by
  induction front with
  | nil => rfl
  | cons t front ih =>
    have ht : ¬ w.last < t := UInt64.not_lt.mpr (h t List.mem_cons_self)
    rw [List.cons_append, await?, resume, if_neg ht]
    exact ih fun t' ht' => h t' (List.mem_cons_of_mem _ ht')

/-- A later reading ends it. -/
theorem await?_cons_of_lt (h : w.last < now) (rs : List UInt64) : w.await? (now :: rs) =
    some (.ok (compose { w with last := now }.parts), { w with last := now }, rs) := by
  rw [await?, resume, if_pos h]
  rfl

/-- A call that has waited has ended at a later reading. -/
theorem exists_of_await? (hn : w.await? rs = some (o, g', rest)) :
    ∃ front later, rs = front ++ later :: rest ∧ w.last < later ∧
      o = .ok (compose { w with last := later }.parts) ∧ g' = { w with last := later } := by
  induction rs with
  | nil => cases hn
  | cons now rs ih =>
    by_cases hlt : w.last < now
    · rw [await?_cons_of_lt hlt] at hn
      cases hn
      exact ⟨[], now, rfl, hlt, rfl, rfl⟩
    · rw [await?, resume, if_neg hlt] at hn
      obtain ⟨front, later, rfl, hend⟩ := ih hn
      exact ⟨now :: front, later, rfl, hend⟩

/-- A call that waits issues its id at the first reading after the last one used. -/
theorem await?_stamps (h : Waits g w) (front : List UInt64)
    (hn : w.await? rs = some (o, g', rest)) :
    ∃ used id, rs = used ++ rest ∧ o = .ok id ∧ Stamps g g' (front ++ used) id := by
  obtain ⟨passed, later, rfl, hlater, rfl, rfl⟩ := exists_of_await? hn
  have hfrom := h.fromEpoch
  have hlt := UInt64.lt_iff_toNat_lt.mp hlater
  have he : epoch ≤ later := UInt64.le_iff_toNat_le.mpr (by omega)
  refine ⟨passed ++ [later], _, ?_, rfl, ?_⟩
  · rw [List.append_assoc, List.singleton_append]
  · rw [← List.append_assoc]
    exact stamps_issue h.sound h.worker h.datacenter he (front ++ passed)

/-- **A call** uses up readings, and is refused and leaves the generator as it was, or issues the id
of its place at the last of them. -/
theorem next?_stamps (h : g.Sound) (hn : g.next? rs = some (o, g', rest)) :
    ∃ used, rs = used ++ rest ∧
      ((∃ e, o = .error e ∧ g' = g) ∨ ∃ id, o = .ok id ∧ Stamps g g' used id) := by
  cases rs with
  | nil => cases hn
  | cons now rs =>
    rw [next?] at hn
    generalize hc : g.begin now = c at hn
    cases hc ▸ begins h now with
    | refused href =>
      cases hn
      exact ⟨[now], rfl, Or.inl ⟨_, rfl, rfl⟩⟩
    | repeated heq he hs =>
      cases hn
      have hw : Sound { g with sequence := g.sequence + 1 } :=
        h.withSequence (by rwa [toNat_add_one hs])
      exact ⟨[now], rfl, Or.inr ⟨_, rfl, stamps_issue (g := g) hw rfl rfl he []⟩⟩
    | exhausted heq he hs =>
      have hw : Waits g { g with sequence := 0 } :=
        ⟨h.withSequence zero_lt_sequences, rfl, rfl, rfl,
          heq ▸ UInt64.le_iff_toNat_le.mp he⟩
      obtain ⟨used, id, hrs, ho, hs⟩ := await?_stamps hw [now] hn
      exact ⟨now :: used, by rw [hrs, List.cons_append], Or.inr ⟨id, ho, hs⟩⟩
    | later hlt he =>
      cases hn
      have hw : Sound { g with sequence := 0 } := h.withSequence zero_lt_sequences
      exact ⟨[now], rfl, Or.inr ⟨_, rfl, stamps_issue (g := g) hw rfl rfl he []⟩⟩

/-! ### Runs -/

/-- The generator after so many calls, with the readings that are left. -/
def after? (g : Generator) : Nat → List UInt64 → Option (Generator × List UInt64)
  | 0, rs => some (g, rs)
  | n + 1, rs =>
    match g.next? rs with
    | none => none
    | some (_, g', rest) => g'.after? n rest

theorem after?_sound {n : Nat} {g₁ : Generator} {rs₁ : List UInt64} (h : g.Sound)
    (ha : g.after? n rs = some (g₁, rs₁)) :
    g₁.Sound ∧ g₁.worker = g.worker ∧ g₁.datacenter = g.datacenter := by
  induction n generalizing g rs with
  | zero =>
    cases ha
    exact ⟨h, rfl, rfl⟩
  | succ n ih =>
    rw [after?] at ha
    rcases hn : g.next? rs with _ | ⟨o, g', rest⟩
    · rw [hn] at ha
      cases ha
    rw [hn] at ha
    obtain ⟨used, -, ⟨e, -, rfl⟩ | ⟨id, -, hs⟩⟩ := next?_stamps h hn
    · exact ih h ha
    · obtain ⟨h₁, hworker, hdatacenter⟩ := ih hs.sound ha
      exact ⟨h₁, hworker.trans hs.worker, hdatacenter.trans hs.datacenter⟩

/-- An id of a run is issued by one of its calls. -/
theorem exists_call_of_mem_ids {n : Nat} {id : UInt64} (h : id ∈ ids (g.run n rs)) :
    ∃ k < n, ∃ g₁ rs₁ g₂ rest, g.after? k rs = some (g₁, rs₁) ∧
      g₁.next? rs₁ = some (.ok id, g₂, rest) := by
  induction n generalizing g rs with
  | zero => simp [run, ids] at h
  | succ n ih =>
    rw [run] at h
    rcases hn : g.next? rs with _ | ⟨o, g', rest⟩
    · simp [hn, ids] at h
    rw [hn] at h
    have hlater (hid : id ∈ ids (g'.run n rest)) : ∃ k < n + 1, ∃ g₁ rs₁ g₂ rest',
        g.after? k rs = some (g₁, rs₁) ∧ g₁.next? rs₁ = some (.ok id, g₂, rest') := by
      obtain ⟨k, hk, g₁, rs₁, g₂, rest', ha, hcall⟩ := ih hid
      refine ⟨k + 1, Nat.succ_lt_succ hk, g₁, rs₁, g₂, rest', ?_, hcall⟩
      rw [after?, hn]
      exact ha
    cases o with
    | error e => exact hlater h
    | ok id' =>
      rcases List.mem_cons.mp h with rfl | hid
      · exact ⟨0, Nat.succ_pos n, g, rs, g', rest, rfl, hn⟩
      · exact hlater hid

/-- **Every id of a run tells the place of its generator**, also beyond the time that fits. -/
theorem place_of_mem_ids (h : g.Sound) {n : Nat} {id : UInt64} (hid : id ∈ ids (g.run n rs)) :
    (decompose id).datacenter = g.datacenter ∧ (decompose id).worker = g.worker := by
  obtain ⟨k, -, g₁, rs₁, g₂, rest, ha, hcall⟩ := exists_call_of_mem_ids hid
  obtain ⟨h₁, hworker, hdatacenter⟩ := after?_sound h ha
  obtain ⟨used, -, ⟨e, ho, -⟩ | ⟨id', ho, hs⟩⟩ := next?_stamps h₁ hcall
  · cases ho
  cases ho
  have hplaced : g₂.parts.Placed := ⟨hs.sound.datacenter, hs.sound.worker, hs.sound.sequence⟩
  obtain ⟨hd, hw, -⟩ := decompose_placed hplaced
  rw [hs.id_eq]
  exact ⟨hd.trans (hs.datacenter.trans hdatacenter), hw.trans (hs.worker.trans hworker)⟩

theorem place_of_create {worker datacenter : UInt64} (h : create worker datacenter = .ok g) :
    g.worker = worker ∧ g.datacenter = datacenter := by
  unfold create at h
  split_ifs at h
  obtain rfl := Except.ok.inj h
  exact ⟨rfl, rfl⟩

/-- **The layout of ids loses nothing.** Whatever calls a generator has made before, an id that it
issues at a reading that fits has that reading, its place and its number as its fields; every number
of 63 bits has fields in their ranges and is the id of them; and two generators of different places
never issue one id, whatever their clocks show. -/
theorem layout_lossless {worker datacenter : UInt64} (h : create worker datacenter = .ok g) :
    (∀ n rs g₁ rs₁ id g₂ rest, g.after? n rs = some (g₁, rs₁) →
      g₁.next? rs₁ = some (.ok id, g₂, rest) →
      (∃ front, rs₁ = front ++ g₂.last :: rest) ∧
        (g₂.last.toNat < epoch.toNat + 2 ^ 41 →
          decompose id = ⟨g₂.last, datacenter, worker, g₂.sequence⟩)) ∧
    (∀ id : UInt64, id.toNat < 2 ^ 63 →
      (decompose id).InRange ∧ compose (decompose id) = id) ∧
    ∀ worker' datacenter' g', create worker' datacenter' = .ok g' →
      (datacenter, worker) ≠ (datacenter', worker') →
        ∀ n rs n' rs', ∀ id ∈ ids (g.run n rs), id ∉ ids (g'.run n' rs') := by
  have hg := sound_of_create h
  obtain ⟨rfl, rfl⟩ := place_of_create h
  refine ⟨?_, fun id hid => ⟨inRange_decompose id, compose_decompose hid⟩, ?_⟩
  · intro n rs g₁ rs₁ id g₂ rest ha hcall
    obtain ⟨h₁, hworker, hdatacenter⟩ := after?_sound hg ha
    obtain ⟨used, hrs, ⟨e, ho, -⟩ | ⟨id', ho, hs⟩⟩ := next?_stamps h₁ hcall
    · cases ho
    cases ho
    obtain ⟨front, rfl⟩ := hs.reading
    refine ⟨⟨front, by rw [hrs, List.append_assoc, List.singleton_append]⟩, fun ht => ?_⟩
    have hrange : g₂.parts.InRange := hs.sound.inRange hs.fromEpoch ht
    rw [hs.id_eq, decompose_compose hrange, ← hworker, ← hdatacenter, ← hs.worker, ← hs.datacenter]
    rfl
  · intro worker' datacenter' g' h' hne n rs n' rs' id hid hid'
    obtain ⟨hd, hw⟩ := place_of_mem_ids hg hid
    obtain ⟨hd', hw'⟩ := place_of_mem_ids (sound_of_create h') hid'
    obtain ⟨rfl, rfl⟩ := place_of_create h'
    exact hne (Prod.ext (hd.symm.trans hd') (hw.symm.trans hw'))

/-- The second id of a millisecond, and two generators with each other's numbers on one clock, which
goes on beyond the time that fits. -/
theorem layout_lossless_swapped :
    let g : Generator := ⟨7, 3, 0, 0⟩
    let g' : Generator := ⟨3, 7, 0, 0⟩
    let rs := [epoch + 5, epoch + 5, epoch + 0x20000000005]
    create 7 3 = .ok g ∧ create 3 7 = .ok g' ∧ (ids (g.run 3 rs)).length = 3 ∧
      (∀ id ∈ ids (g.run 3 rs), id ∉ ids (g'.run 3 rs)) ∧
      ∃ id ∈ ids (g.run 3 rs), id.toNat < 2 ^ 63 ∧ decompose id = ⟨epoch + 5, 3, 7, 1⟩ ∧
        compose (decompose id) = id := by
  intro g g' rs
  have hc : create 7 3 = .ok g := rfl
  obtain ⟨hfields, hback, hapart⟩ := layout_lossless hc
  let id : UInt64 := compose ⟨epoch + 5, 3, 7, 1⟩
  have ha : g.after? 1 rs = some (⟨7, 3, epoch + 5, 0⟩, [epoch + 5, epoch + 0x20000000005]) := by
    decide +kernel
  have hcall : next? ⟨7, 3, epoch + 5, 0⟩ [epoch + 5, epoch + 0x20000000005] =
      some (.ok id, ⟨7, 3, epoch + 5, 1⟩, [epoch + 0x20000000005]) := rfl
  have hsmall : id.toNat < 2 ^ 63 := by decide +kernel
  refine ⟨hc, rfl, by decide +kernel, ?_, id, by decide +kernel, hsmall, ?_, (hback id hsmall).2⟩
  · exact hapart 3 7 g' rfl (by decide) 3 rs 3 rs
  · exact (hfields 1 rs _ _ id _ _ ha hcall).2 (by decide)

end Generator
end EdgeGateway.RequestId

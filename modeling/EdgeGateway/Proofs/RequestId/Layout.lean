import Mathlib.Algebra.Group.Nat.Defs
import EdgeGateway.RequestId.Layout

/-! # Ids as numbers

Where the parts of an id are in their ranges, they stand beside each other and the id is a sum of
multiples of them (`toNat_compose`), so that later times and larger numbers make larger ids. The
arithmetic that composes an id is exact: with operations that fail when a result does not fit, it
has the same result (`compose?_eq`). -/

namespace EdgeGateway.RequestId

/-- The parts of an id are in their ranges. -/
structure Parts.InRange (p : Parts) : Prop where
  fromEpoch : epoch.toNat ≤ p.timestamp.toNat
  toEnd : p.timestamp.toNat < epoch.toNat + 2 ^ 41
  datacenter : p.datacenter.toNat < 2 ^ 5
  worker : p.worker.toNat < 2 ^ 5
  sequence : p.sequence.toNat < 2 ^ 12

/-- All parts but the time are in their ranges. -/
structure Parts.Placed (p : Parts) : Prop where
  datacenter : p.datacenter.toNat < 2 ^ 5
  worker : p.worker.toNat < 2 ^ 5
  sequence : p.sequence.toNat < 2 ^ 12

theorem Parts.InRange.placed {p : Parts} (h : p.InRange) : p.Placed :=
  ⟨h.datacenter, h.worker, h.sequence⟩

theorem toNat_and_mask {a m : UInt64} {k : Nat} (hm : m.toNat = 2 ^ k - 1) :
    (a &&& m).toNat = a.toNat % 2 ^ k := by
  rw [UInt64.toNat_and, hm, Nat.and_two_pow_sub_one_eq_mod]

theorem toNat_shift {a s : UInt64} {k n : Nat} (hs : s.toNat = k) (ha : a.toNat < 2 ^ n)
    (hk : n + k ≤ 64) (hlt : k < 64) : (a <<< s).toNat = 2 ^ k * a.toNat := by
  have hle : 2 ^ k * a.toNat < 2 ^ 64 := by
    calc 2 ^ k * a.toNat < 2 ^ k * 2 ^ n := Nat.mul_lt_mul_of_pos_left ha (Nat.two_pow_pos k)
      _ = 2 ^ (n + k) := by rw [← Nat.pow_add, Nat.add_comm]
      _ ≤ 2 ^ 64 := Nat.pow_le_pow_right (by omega) hk
  rw [UInt64.toNat_shiftLeft, hs, Nat.mod_eq_of_lt hlt, Nat.shiftLeft_eq, Nat.mul_comm,
    Nat.mod_eq_of_lt hle]

variable {p : Parts}

theorem toNat_elapsed (h : p.InRange) :
    ((p.timestamp - epoch) &&& timestampMask).toNat = p.timestamp.toNat - epoch.toNat := by
  have he := h.fromEpoch
  have ht := h.toEnd
  rw [toNat_and_mask (k := 41) (by decide),
    UInt64.toNat_sub_of_le _ _ (UInt64.le_iff_toNat_le.mpr he)]
  exact Nat.mod_eq_of_lt (by omega)

/-- **An id is the sum of the places of its parts**, of the time since the epoch the lowest 41 bits. -/
theorem toNat_compose_of_placed (h : p.Placed) : (compose p).toNat =
    2 ^ 22 * ((p.timestamp - epoch) &&& timestampMask).toNat + 2 ^ 17 * p.datacenter.toNat +
      2 ^ 12 * p.worker.toNat + p.sequence.toNat := by
  have hd := h.datacenter
  have hw := h.worker
  have hs := h.sequence
  have he : ((p.timestamp - epoch) &&& timestampMask).toNat < 2 ^ 41 := by
    rw [toNat_and_mask (k := 41) (by decide)]
    exact Nat.mod_lt _ (Nat.two_pow_pos 41)
  have h22 : (((p.timestamp - epoch) &&& timestampMask) <<< 22).toNat =
      2 ^ 22 * ((p.timestamp - epoch) &&& timestampMask).toNat :=
    toNat_shift rfl he (by omega) (by omega)
  have h17 : (p.datacenter <<< 17).toNat = 2 ^ 17 * p.datacenter.toNat :=
    toNat_shift rfl hd (by omega) (by omega)
  have h12 : (p.worker <<< 12).toNat = 2 ^ 12 * p.worker.toNat :=
    toNat_shift rfl hw (by omega) (by omega)
  unfold compose
  generalize ((p.timestamp - epoch) &&& timestampMask) = elapsed at h22 ⊢
  rw [UInt64.toNat_or, UInt64.toNat_or, UInt64.toNat_or, h22, h17, h12,
    ← Nat.two_pow_add_eq_or_of_lt (show 2 ^ 17 * p.datacenter.toNat < 2 ^ 22 by omega)]
  have hdw : 2 ^ 22 * elapsed.toNat + 2 ^ 17 * p.datacenter.toNat =
      2 ^ 17 * (2 ^ 5 * elapsed.toNat + p.datacenter.toNat) := by omega
  rw [hdw, ← Nat.two_pow_add_eq_or_of_lt (show 2 ^ 12 * p.worker.toNat < 2 ^ 17 by omega)]
  have hws : 2 ^ 17 * (2 ^ 5 * elapsed.toNat + p.datacenter.toNat) + 2 ^ 12 * p.worker.toNat =
      2 ^ 12 * (2 ^ 10 * elapsed.toNat + 2 ^ 5 * p.datacenter.toNat + p.worker.toNat) := by omega
  rw [hws, ← Nat.two_pow_add_eq_or_of_lt hs]

/-- **The id of parts in their ranges** is the sum of their places. -/
theorem toNat_compose (h : p.InRange) : (compose p).toNat =
    2 ^ 22 * (p.timestamp.toNat - epoch.toNat) + 2 ^ 17 * p.datacenter.toNat +
      2 ^ 12 * p.worker.toNat + p.sequence.toNat := by
  rw [toNat_compose_of_placed h.placed, toNat_elapsed h]

theorem compose_lt (h : p.InRange) : (compose p).toNat < 2 ^ 63 := by
  have ht := h.toEnd
  have hd := h.datacenter
  have hw := h.worker
  have hs := h.sequence
  rw [toNat_compose h]
  omega

/-! ### Arithmetic that fails when a result does not fit -/

/-- Subtraction that does not go below zero. -/
def sub? (a b : UInt64) : Option UInt64 := if b ≤ a then some (a - b) else none

/-- Addition that stays within 64 bits. -/
def add? (a b : UInt64) : Option UInt64 :=
  if a.toNat + b.toNat < 2 ^ 64 then some (a + b) else none

/-- A shift by less than 64 places that loses no bits. -/
def shift? (a s : UInt64) : Option UInt64 :=
  if s.toNat < 64 ∧ 2 ^ s.toNat * a.toNat < 2 ^ 64 then some (a <<< s) else none

/-- The id of its parts, where no operation may lose anything. -/
def compose? (p : Parts) : Option UInt64 := do
  let elapsed ← sub? p.timestamp epoch
  let high ← shift? (elapsed &&& timestampMask) 22
  let datacenter ← shift? p.datacenter 17
  let worker ← shift? p.worker 12
  return high ||| datacenter ||| worker ||| p.sequence

theorem shift?_eq {a s : UInt64} {k n : Nat} (hs : s.toNat = k) (ha : a.toNat < 2 ^ n)
    (hk : n + k ≤ 64) (hlt : k < 64) : shift? a s = some (a <<< s) := by
  have hn := (a <<< s).toNat_lt
  rw [toNat_shift hs ha hk hlt] at hn
  subst hs
  exact if_pos ⟨hlt, hn⟩

/-- **Composing an id loses nothing.** -/
theorem compose?_eq (h : p.InRange) : compose? p = some (compose p) := by
  have hsub : sub? p.timestamp epoch = some (p.timestamp - epoch) :=
    if_pos (UInt64.le_iff_toNat_le.mpr h.fromEpoch)
  have he := toNat_elapsed h
  have ht := h.toEnd
  unfold compose?
  rw [hsub, Option.bind_eq_bind, Option.bind_some,
    shift?_eq (k := 22) (n := 41) rfl (by omega) (by omega) (by omega),
    shift?_eq (k := 17) rfl h.datacenter (by omega) (by omega),
    shift?_eq (k := 12) rfl h.worker (by omega) (by omega)]
  rfl

end EdgeGateway.RequestId

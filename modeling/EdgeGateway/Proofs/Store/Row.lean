import EdgeGateway.Proofs.Json.Decode
import EdgeGateway.Proofs.Route.Rule
import EdgeGateway.Store.Row

/-! # Rows are read back as what was written

The rules of a row are read back as they were written (`decodeRules_encodeRules`). So the row of a
new route is always readable (`read_ofRoute`), and the row after an update is readable as long as
its version is one of a route (`read_updated`): a row is *spent* when its version has run past the
last one, and then it cannot be read or updated any more. -/

namespace EdgeGateway.Store

open Json

/-- **The rules of a row are read back as they were written.** -/
theorem decodeRules_encodeRules (rs : List Rule) : decodeRules (encodeRules rs) = .ok rs := by
  have hd : Decode.document (Decode.list (Rule.ofTree 1)) (encodeRules rs).toUTF8 = .ok rs := by
    rw [encodeRules, Decode.document_compress _ (Rule.isWritable_rules rs)]
    exact Rule.list_ofTree_toTree rs (by decide)
  unfold decodeRules
  rw [hd]

namespace Row

/-- The version of the row has run past the last version of a route. -/
def Spent (row : Row) : Prop := 0x7FFFFFFFFFFFFFFF < row.version

theorem toRoute_of_rules {row : Row} {ps fs : List Rule} (hp : row.predicates = encodeRules ps)
    (hf : row.filters = encodeRules fs) (id : String) :
    row.toRoute id = .ok {
      id := id, uri := row.uri, predicates := ps, filters := fs,
      order := Int32.ofInt row.order, createdAt := Instant.ofMillis? row.createTime,
      updatedAt := Instant.ofMillis? row.updateTime, version := Int64.ofInt row.version } := by
  unfold toRoute
  rw [hp, hf, decodeRules_encodeRules, decodeRules_encodeRules]
  rfl

theorem fits_iff (row : Row) : row.fits = true ↔
    (-2 ^ 63 ≤ row.version ∧ row.version < 2 ^ 63) ∧ -2 ^ 31 ≤ row.order ∧ row.order < 2 ^ 31 := by
  unfold fits
  simp only [Bool.and_eq_true, decide_eq_true_eq]
  omega

theorem read_of_fits {row : Row} (h : row.fits = true) (id : String) :
    row.read id = row.toRoute id := by
  rw [read, if_pos h]

theorem fits_of_read {row : Row} {id : String} {r : Route} (h : row.read id = .ok r) :
    row.fits = true := by
  unfold read at h
  split_ifs at h with hf
  exact hf

/-- What a row shows has the row's version and the id that it was read under. -/
theorem props_of_read {row : Row} {id : String} {r : Route} (h : row.read id = .ok r) :
    r.id = id ∧ r.version.toInt = row.version := by
  have hf := fits_of_read h
  rw [read_of_fits hf] at h
  unfold toRoute at h
  match decodeRules row.predicates, decodeRules row.filters, h with
  | .ok ps, .ok fs, h =>
    cases h
    have hv := (row.fits_iff.mp hf).1
    exact ⟨rfl, Int64.toInt_ofInt_of_le hv.1 hv.2⟩
  | .error e, _, h => cases h
  | .ok ps, .error e, h => cases h

/-- What a row shows has the row's order. -/
theorem order_of_read {row : Row} {id : String} {r : Route} (h : row.read id = .ok r) :
    r.order.toInt = row.order := by
  have hf := fits_of_read h
  rw [read_of_fits hf] at h
  unfold toRoute at h
  match decodeRules row.predicates, decodeRules row.filters, h with
  | .ok ps, .ok fs, h =>
    cases h
    have ho := (row.fits_iff.mp hf).2
    exact Int32.toInt_ofInt_of_le ho.1 ho.2
  | .error e, _, h => cases h
  | .ok ps, .error e, h => cases h

/-- **The row of a new route** shows that route at version 0. -/
theorem read_ofRoute (r : Route) (id : String) (now : Int) : (ofRoute r now).read id = .ok { r with
    id := id, createdAt := Instant.ofMillis? now, updatedAt := Instant.ofMillis? now,
    version := 0 } := by
  have hf : (ofRoute r now).fits = true := by
    rw [fits_iff]
    exact ⟨by simp [ofRoute], r.order.le_toInt, r.order.toInt_lt⟩
  have ht := @toRoute_of_rules (ofRoute r now) r.predicates r.filters rfl rfl id
  rw [read_of_fits hf, ht]
  simp only [ofRoute, Int32.ofInt_toInt]
  rfl

/-- **The row after an update** shows the updated route at the next version, if there is one. -/
theorem read_updated (old : Row) (r : Route) (id : String) (now : Int)
    (hv : -2 ^ 63 ≤ old.version + 1 ∧ old.version + 1 < 2 ^ 63) :
    (old.updated r now).read id = .ok { r with
      id := id, createdAt := Instant.ofMillis? old.createTime,
      updatedAt := Instant.ofMillis? now, version := Int64.ofInt (old.version + 1) } := by
  have hf : (old.updated r now).fits = true := by
    rw [fits_iff]
    exact ⟨hv, r.order.le_toInt, r.order.toInt_lt⟩
  have ht := @toRoute_of_rules (old.updated r now) r.predicates r.filters rfl rfl id
  rw [read_of_fits hf, ht]
  simp only [updated, Int32.ofInt_toInt]

end Row
end EdgeGateway.Store

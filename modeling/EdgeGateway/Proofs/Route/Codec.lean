import EdgeGateway.Proofs.Json.Decode
import EdgeGateway.Proofs.Route.Rule
import EdgeGateway.Proofs.Time.Rfc3339

/-! # Routes are read back as they were written

A route is written as an object whose members stand in the order of its fields, without the times
that are not set. Reading takes the members one by one, each into a field that was not read before,
so a route is read back as it was written (`decode_encode`): with any texts as its id and uri, any
rules, an order and a version of any size, and times of any precision. -/

namespace EdgeGateway.Route

open Json

/-- The members of a time that may not be set. -/
def instantMember (key : String) (o : Option Instant) : List (Option String × Tree) :=
  Tree.optionMember key (fun i => .str (Rfc3339.text i)) o

/-- The members of a route in order. -/
def memberList (r : Route) : List (Option String × Tree) :=
  [(some "id", .str r.id), (some "uri", .str r.uri),
    (some "predicates", .array (r.predicates.map Rule.toTree)),
    (some "filters", .array (r.filters.map Rule.toTree)),
    (some "order", .int r.order.toInt)] ++
  (instantMember "createdAt" r.createdAt ++
    (instantMember "updatedAt" r.updatedAt ++ [(some "version", .int r.version.toInt)]))

theorem toTree_eq (r : Route) : r.toTree = .object r.memberList := by
  obtain ⟨id, uri, predicates, filters, order, createdAt, updatedAt, version⟩ := r
  cases createdAt <;> cases updatedAt <;> rfl

theorem isWritable_toTree (r : Route) : r.toTree.IsWritable := by
  have htime (key : String) (o : Option Instant) :
      Tree.MembersWritable (instantMember key o) :=
    Tree.membersWritable_option key (fun i => Tree.isWritable_str (Rfc3339.text i)) o
  have hfront : Tree.MembersWritable [(some "id", Tree.str r.id), (some "uri", .str r.uri),
      (some "predicates", .array (r.predicates.map Rule.toTree)),
      (some "filters", .array (r.filters.map Rule.toTree)),
      (some "order", .int r.order.toInt)] :=
    ⟨rfl, rfl, rfl, rfl, rfl, Rule.isWritable_rules r.predicates, rfl,
      Rule.isWritable_rules r.filters, rfl, Tree.isWritable_int _, trivial⟩
  have hback : Tree.MembersWritable [(some "version", Tree.int r.version.toInt)] :=
    ⟨rfl, Tree.isWritable_int _, trivial⟩
  have htimes := Tree.membersWritable_append (htime "createdAt" r.createdAt)
    (Tree.membersWritable_append (htime "updatedAt" r.updatedAt) hback)
  rw [toTree_eq, Tree.IsWritable, memberList]
  exact Tree.membersWritable_append hfront htimes

/-! ### Fields -/

namespace Draft

theorem instant_text (i : Instant) : instant (.str (Rfc3339.text i)) = .ok i := by
  have hparse : Rfc3339.parse? (Rfc3339.text i).toList = some i := by
    rw [Rfc3339.text, String.toList_ofList, Rfc3339.parse?_render]
  simp only [instant, Tree.str, Decode.text, bind, Except.bind, hparse]

theorem int32_int (n : Int32) : int32 (.int n.toInt) = .ok n := by
  have hlo := n.le_toInt
  have hhi := n.toInt_lt
  unfold int32
  rw [Decode.integer_int ⟨by omega, by omega⟩]
  show Except.ok (Int32.ofInt n.toInt) = .ok n
  rw [Int32.ofInt_toInt]

theorem int64_int (n : Int64) : int64 (.int n.toInt) = .ok n := by
  have hlo := n.le_toInt
  have hhi := n.toInt_lt
  unfold int64
  rw [Decode.integer_int ⟨by omega, by omega⟩]
  show Except.ok (Int64.ofInt n.toInt) = .ok n
  rw [Int64.ofInt_toInt]

section

variable {depth : Nat} {d : Draft}

theorem field_id (h : d.id = none) (s : String) :
    field depth d "id" (.str s) = .ok { d with id := some s } := by
  show (do return { d with id := ← Decode.once d.id (.ok s) }) = _
  rw [h]
  rfl

theorem field_uri (h : d.uri = none) (s : String) :
    field depth d "uri" (.str s) = .ok { d with uri := some s } := by
  show (do return { d with uri := ← Decode.once d.uri (.ok s) }) = _
  rw [h]
  rfl

theorem field_predicates (h : d.predicates = none) (hd : depth + 3 ≤ maxNesting)
    (rs : List Rule) : field depth d "predicates" (.array (rs.map Rule.toTree)) =
      .ok { d with predicates := some rs } := by
  show (do return { d with predicates := ← Decode.once d.predicates (Decode.list _ _) }) = _
  rw [h, Rule.list_ofTree_toTree rs hd]
  rfl

theorem field_filters (h : d.filters = none) (hd : depth + 3 ≤ maxNesting)
    (rs : List Rule) : field depth d "filters" (.array (rs.map Rule.toTree)) =
      .ok { d with filters := some rs } := by
  show (do return { d with filters := ← Decode.once d.filters (Decode.list _ _) }) = _
  rw [h, Rule.list_ofTree_toTree rs hd]
  rfl

theorem field_order (h : d.order = none) (n : Int32) :
    field depth d "order" (.int n.toInt) = .ok { d with order := some n } := by
  show (do return { d with order := ← Decode.once d.order (int32 _) }) = _
  rw [h, int32_int]
  rfl

theorem optional_instant (i : Instant) :
    Decode.optional instant (.str (Rfc3339.text i)) = .ok (some i) := by
  show (instant (.str (Rfc3339.text i))).map some = _
  rw [instant_text]
  rfl

theorem field_createdAt (h : d.createdAt = none) (i : Instant) :
    field depth d "createdAt" (.str (Rfc3339.text i)) =
      .ok { d with createdAt := some (some i) } := by
  show (do return { d with createdAt := ← Decode.once d.createdAt (Decode.optional _ _) }) = _
  rw [h, optional_instant]
  rfl

theorem members_createdAt (h : d.createdAt = none) (o : Option Instant)
    (ms : List (Option String × Tree)) :
    Decode.members (field depth) d (instantMember "createdAt" o ++ ms) =
      Decode.members (field depth) { d with createdAt := o.map some } ms :=
  Decode.members_option (fun o => { d with createdAt := o.map some }) (by rw [Option.map_none, ← h])
    (field_createdAt h) o ms

theorem field_updatedAt (h : d.updatedAt = none) (i : Instant) :
    field depth d "updatedAt" (.str (Rfc3339.text i)) =
      .ok { d with updatedAt := some (some i) } := by
  show (do return { d with updatedAt := ← Decode.once d.updatedAt (Decode.optional _ _) }) = _
  rw [h, optional_instant]
  rfl

theorem members_updatedAt (h : d.updatedAt = none) (o : Option Instant)
    (ms : List (Option String × Tree)) :
    Decode.members (field depth) d (instantMember "updatedAt" o ++ ms) =
      Decode.members (field depth) { d with updatedAt := o.map some } ms :=
  Decode.members_option (fun o => { d with updatedAt := o.map some }) (by rw [Option.map_none, ← h])
    (field_updatedAt h) o ms

theorem field_version (h : d.version = none) (n : Int64) :
    field depth d "version" (.int n.toInt) = .ok { d with version := some n } := by
  show (do return { d with version := ← Decode.once d.version (int64 _) }) = _
  rw [h, int64_int]
  rfl

end

end Draft

/-! ### Routes -/

/-- **A route is read back as it was written**, unless it stands too deep for its rules. -/
theorem ofTree_toTree (r : Route) {depth : Nat} (hd : depth + 3 ≤ maxNesting) :
    ofTree depth r.toTree = .ok r := by
  have hfront : Decode.members (Draft.field depth) {} r.memberList =
      Decode.members (Draft.field depth) {
        id := some r.id, uri := some r.uri, predicates := some r.predicates
        filters := some r.filters, order := some r.order }
      (instantMember "createdAt" r.createdAt ++
        (instantMember "updatedAt" r.updatedAt ++ [(some "version", .int r.version.toInt)])) := by
    simp only [memberList, List.cons_append, List.nil_append]
    rw [Decode.members_cons (Draft.field_id rfl r.id),
      Decode.members_cons (Draft.field_uri rfl r.uri),
      Decode.members_cons (Draft.field_predicates rfl hd r.predicates),
      Decode.members_cons (Draft.field_filters rfl hd r.filters),
      Decode.members_cons (Draft.field_order rfl r.order)]
  unfold ofTree
  rw [toTree_eq]
  show (do (← Decode.members (Draft.field depth) {} r.memberList).finish) = _
  rw [hfront, Draft.members_createdAt rfl, Draft.members_updatedAt rfl,
    Decode.members_cons (Draft.field_version rfl r.version)]
  obtain ⟨id, uri, predicates, filters, order, createdAt, updatedAt, version⟩ := r
  cases createdAt <;> cases updatedAt <;> rfl

/-- **A route is read out of its text.** -/
theorem decode_encode (r : Route) : decode r.encode.toUTF8 = .ok r := by
  rw [decode, encode, Decode.document_compress _ r.isWritable_toTree]
  exact r.ofTree_toTree (by decide)

end EdgeGateway.Route

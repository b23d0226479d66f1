import EdgeGateway.Proofs.Route.Codec
import EdgeGateway.Route.Event

/-! # Events survive the wire

An event is written without the fields that it does not have, and is read back as it was written
(`document_encode`), its route two brackets deep. Nothing is lost on the wire, so the text of an
event is accepted exactly when its fields fit its operation, and then it is that event again
(`decode_encode`). What was accepted once, in whatever form it was written, is accepted again after
any number of nodes have passed it on. -/

namespace EdgeGateway.Event

open Json

/-- The members of an event in order. -/
def memberList (e : Event) : List (Option String × Tree) :=
  (some "opType", .int e.op.code) ::
    (Tree.optionMember "routeId" Tree.str e.routeId ++
      (Tree.optionMember "routeDefinition" Route.toTree e.route ++ []))

theorem toTree_eq (e : Event) : e.toTree = .object e.memberList := by
  obtain ⟨op, routeId, route⟩ := e
  cases routeId <;> cases route <;> rfl

theorem isWritable_toTree (e : Event) : e.toTree.IsWritable := by
  have hid : Tree.MembersWritable (Tree.optionMember "routeId" Tree.str e.routeId) :=
    Tree.membersWritable_option "routeId" Tree.isWritable_str e.routeId
  have hroute : Tree.MembersWritable
      (Tree.optionMember "routeDefinition" Route.toTree e.route ++ []) :=
    Tree.membersWritable_append
      (Tree.membersWritable_option "routeDefinition" Route.isWritable_toTree e.route) trivial
  rw [toTree_eq, Tree.IsWritable, memberList]
  exact ⟨rfl, Tree.isWritable_int _, Tree.membersWritable_append hid hroute⟩

/-! ### Fields -/

namespace Draft

variable {d : Draft}

theorem operation_code (op : Operation) : operation (.int op.code) = .ok op := by
  have hcode : (0 : Int) ≤ op.code ∧ (op.code : Int) ≤ 255 := by cases op <;> decide
  simp only [operation, Decode.integer_int hcode, bind, Except.bind, Int.toNat_natCast,
    Operation.ofCode?_code]

theorem field_opType (h : d.op = none) (op : Operation) :
    field d "opType" (.int op.code) = .ok { d with op := some op } := by
  show (do return { d with op := ← Decode.once d.op (operation _) }) = _
  rw [h, operation_code]
  rfl

theorem field_routeId (h : d.routeId = none) (s : String) :
    field d "routeId" (.str s) = .ok { d with routeId := some (some s) } := by
  show (do return { d with routeId := ← Decode.once d.routeId (.ok (some s)) }) = _
  rw [h]
  rfl

theorem optional_route (r : Route) :
    Decode.optional (Route.ofTree 2) r.toTree = .ok (some r) := by
  show (Route.ofTree 2 r.toTree).map some = _
  rw [r.ofTree_toTree (by decide)]
  rfl

theorem field_routeDefinition (h : d.route = none) (r : Route) :
    field d "routeDefinition" r.toTree = .ok { d with route := some (some r) } := by
  show (do return { d with route := ← Decode.once d.route (Decode.optional _ _) }) = _
  rw [h, optional_route]
  rfl

theorem members_routeId (h : d.routeId = none) (o : Option String)
    (ms : List (Option String × Tree)) :
    Decode.members field d (Tree.optionMember "routeId" Tree.str o ++ ms) =
      Decode.members field { d with routeId := o.map some } ms :=
  Decode.members_option (fun o => { d with routeId := o.map some }) (by rw [Option.map_none, ← h])
    (field_routeId h) o ms

theorem members_routeDefinition (h : d.route = none) (o : Option Route)
    (ms : List (Option String × Tree)) :
    Decode.members field d (Tree.optionMember "routeDefinition" Route.toTree o ++ ms) =
      Decode.members field { d with route := o.map some } ms :=
  Decode.members_option (fun o => { d with route := o.map some }) (by rw [Option.map_none, ← h])
    (field_routeDefinition h) o ms

end Draft

/-! ### Events -/

/-- An event is read back as it was written, whether or not its fields fit its operation. -/
theorem ofTree_toTree (e : Event) : ofTree e.toTree = .ok e := by
  unfold ofTree
  rw [toTree_eq]
  show (do (← Decode.members Draft.field {} e.memberList).finish) = _
  rw [memberList, Decode.members_cons (Draft.field_opType rfl e.op), Draft.members_routeId rfl,
    Draft.members_routeDefinition rfl]
  obtain ⟨op, routeId, route⟩ := e
  cases routeId <;> cases route <;> rfl

theorem document_encode (e : Event) : Decode.document ofTree e.encode.toUTF8 = .ok e := by
  rw [encode, Decode.document_compress _ e.isWritable_toTree, ofTree_toTree]

/-- **The text of an event is refused only for what the event is**, never for how it is written. -/
theorem decode_encode (e : Event) : decode e.encode.toUTF8 =
    match e.change with
    | .error m => .error (.mismatch m)
    | .ok _ => .ok e := by
  cases h : e.change with
  | error m => simp only [decode, document_encode, h]
  | ok c => simp only [decode, document_encode, h]

theorem decode_encode_of_change {e : Event} {c : Change} (h : e.change = .ok c) :
    decode e.encode.toUTF8 = .ok e := by
  rw [decode_encode, h]

theorem decode_encode_of_mismatch {e : Event} {m : Mismatch} (h : e.change = .error m) :
    decode e.encode.toUTF8 = .error (.mismatch m) := by
  rw [decode_encode, h]

/-- An event that was accepted tells of a change. -/
theorem exists_change_of_decode {b : ByteArray} {e : Event} (h : decode b = .ok e) :
    ∃ c, e.change = .ok c := by
  unfold decode at h
  rcases hdoc : Decode.document ofTree b with x | e'
  · rw [hdoc] at h
    nomatch h
  · rw [hdoc] at h
    rcases hchange : e'.change with m | c
    · simp only [hchange] at h
      nomatch h
    · simp only [hchange, Except.ok.injEq] at h
      exact ⟨c, h ▸ hchange⟩

/-- **Nothing is lost on the wire.** An event that was accepted, whatever bytes told of it, fits its
operation and is read again out of its own text. Every event there is, with any route, is read out
of its text exactly when it fits its operation, and is otherwise refused for that. A route by itself
always is, and writing it again gives the same text. -/
theorem wire_lossless :
    (∀ (b : ByteArray) (e : Event), decode b = .ok e →
      (∃ c, e.change = .ok c) ∧ decode e.encode.toUTF8 = .ok e) ∧
    (∀ c : Change, decode c.toEvent.encode.toUTF8 = .ok c.toEvent) ∧
    (∀ e : Event, decode e.encode.toUTF8 = .ok e ↔ ∃ c, e.change = .ok c) ∧
    (∀ (e : Event) (m : Mismatch), e.change = .error m →
      decode e.encode.toUTF8 = .error (.mismatch m)) ∧
    ∀ r : Route, Route.decode r.encode.toUTF8 = .ok r ∧
      (Route.decode r.encode.toUTF8).map Route.encode = .ok r.encode := by
  refine ⟨fun b e h => ?_, fun c => decode_encode_of_change (change_toEvent c),
    fun e => ⟨exists_change_of_decode, fun ⟨_, h⟩ => decode_encode_of_change h⟩,
    fun e m h => decode_encode_of_mismatch h, fun r => ⟨r.decode_encode, ?_⟩⟩
  · obtain ⟨c, hc⟩ := exists_change_of_decode h
    exact ⟨⟨c, hc⟩, decode_encode_of_change hc⟩
  · rw [r.decode_encode]
    rfl

/-- An event whose route came as an array: its rule as a shortcut, its order the least there is, its
time ahead of UTC, beside a member that is not known. -/
theorem wire_lossless_array :
    let text := "\x7b\"opType\": 1, \"hops\": [7], \"routeDefinition\": [\"a\", \"lb://b\",
      [\"Path=/x/**\"], [], -2147483648, \"2024-03-01T00:29:60.5+01:30\"]\x7d"
    ∃ e, decode text.toUTF8 = .ok e ∧ (∃ c, e.change = .ok c) ∧
      decode e.encode.toUTF8 = .ok e := by
  intro text
  have hread : (decode text.toUTF8).isOk = true := by decide +kernel
  obtain ⟨e, he⟩ : ∃ e, decode text.toUTF8 = .ok e := by
    rcases h : decode text.toUTF8 with x | e
    · rw [h] at hread
      nomatch hread
    · exact ⟨e, rfl⟩
  exact ⟨e, he, wire_lossless.1 _ e he⟩

end EdgeGateway.Event

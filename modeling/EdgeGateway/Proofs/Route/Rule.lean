import EdgeGateway.Proofs.Json.RoundTrip
import EdgeGateway.Proofs.KeyMap
import EdgeGateway.Route.Codec

/-! # Rules are read back as they were written

A rule is written as an object of its name and its arguments. It is shallow enough to be held in
memory wherever a rule may stand, and reading gives back the same rule (`ofTree_toTree`): its
arguments are kept by key, so nothing depends on the order in which they were set. -/

namespace EdgeGateway.Rule

open Json

/-- The members of a rule's arguments. -/
def argMembers (r : Rule) : List (Option String × Tree) :=
  r.args.entries.map fun e => (some e.1, .str e.2)

theorem toTree_eq (r : Rule) : r.toTree =
    .object [(some "name", .str r.name), (some "args", .object r.argMembers)] := by
  simp [toTree, Tree.ofMembers, argMembers]

theorem membersWritable_texts (l : List (String × String)) :
    Tree.MembersWritable (l.map fun e => (some e.1, .str e.2)) := by
  induction l with
  | nil => trivial
  | cons e l ih => exact ⟨rfl, rfl, ih⟩

theorem isWritable_toTree (r : Rule) : r.toTree.IsWritable := by
  rw [toTree_eq]
  exact ⟨rfl, rfl, rfl, membersWritable_texts _, trivial⟩

theorem membersPlain_texts (depth : Nat) (l : List (String × String)) :
    Tree.membersPlain depth (l.map fun e => (some e.1, .str e.2)) = true := by
  induction l with
  | nil => rfl
  | cons e l ih =>
    rw [List.map_cons, Tree.membersPlain, ih]
    rfl

theorem isPlain_toTree (r : Rule) (depth : Nat) : r.toTree.isPlain (depth + 2) = true := by
  have ha : Tree.membersPlain depth r.argMembers = true := membersPlain_texts depth r.args.entries
  rw [toTree_eq]
  simp only [Tree.isPlain, Tree.membersPlain, Tree.str, ha, Option.isSome_some, Bool.and_self]

theorem mapM_arg? (l : List (String × String)) :
    (l.map fun e => (some e.1, Tree.str e.2)).mapM arg? = some l := by
  induction l with
  | nil => rfl
  | cons e l ih =>
    rw [List.map_cons, List.mapM_cons, ih]
    rfl

theorem args?_argMembers (r : Rule) : args? (.object r.argMembers) = some r.args := by
  show (r.argMembers.mapM arg?).map KeyMap.ofList = _
  rw [argMembers, mapM_arg?, Option.map_some, KeyMap.ofList_entries]

/-- **A rule is read back as it was written**, unless it stands too deep. -/
theorem ofTree_toTree (r : Rule) {depth : Nat} (h : depth + 2 ≤ maxNesting) :
    ofTree depth r.toTree = .ok r := by
  obtain ⟨d, hd⟩ : ∃ d, maxNesting - depth = d + 2 := ⟨maxNesting - depth - 2, by omega⟩
  have hm : ofMembers? [(some "name", .str r.name), (some "args", .object r.argMembers)] =
      some r := by
    show (args? (.object r.argMembers)).map (fun a => (⟨r.name, a⟩ : Rule)) = some r
    rw [args?_argMembers]
    rfl
  unfold ofTree
  rw [hd, isPlain_toTree, if_pos rfl, toTree_eq]
  simp only [hm]

/-! ### Lists of rules -/

theorem isWritable_rules (rs : List Rule) : (Tree.array (rs.map toTree)).IsWritable := by
  show Tree.AreWritable (rs.map toTree)
  induction rs with
  | nil => trivial
  | cons r rs ih => exact ⟨r.isWritable_toTree, ih⟩

/-- A list of rules is read back as it was written. -/
theorem list_ofTree_toTree (rs : List Rule) {depth : Nat} (h : depth + 2 ≤ maxNesting) :
    Decode.list (ofTree depth) (.array (rs.map toTree)) = .ok rs := by
  show (rs.map toTree).mapM (ofTree depth) = .ok rs
  induction rs with
  | nil => rfl
  | cons r rs ih =>
    rw [List.map_cons, List.mapM_cons, ih, r.ofTree_toTree h]
    rfl

end EdgeGateway.Rule

import AgentScript.Proofs.Except
import AgentScript.Proofs.Syntax.Codec

/-! Reading what was read before. The fields of a node that was read hold what its kind asks for, so
that it is read again unchanged, and the tree made of it is written as the same node. -/
namespace AgentScript

namespace Json

/-- A node whose fields hold what its kind asks for. -/
inductive IsNode : Json → Prop
  | intro {kind : String} {loc : Location} {shape : List (String × FieldKind)} {values : List Json}
      (hs : nodeFields? kind = some shape)
      (hv : List.Forall₂ (fun field v => field.2.Holds v) shape values) :
      IsNode (nodeTree kind loc (operatorFirst (fieldsOf shape values)))

theorem IsNode.isNormal {n : Json} (h : n.IsNode) : n.IsNormal := by
  cases h with
  | intro hs hv => exact normal_node hs hv rfl

section Fields

variable {trees : List FieldTree}

theorem mem_of_memberOf {family : String} {spellings : List String} {v n : Json}
    (h : memberOf family spellings v = .ok n) : ∃ s ∈ spellings, n = .str s := by
  unfold memberOf at h
  split at h
  · split at h
    · cases h
      exact ⟨_, List.contains_iff_mem.mp ‹_›, rfl⟩
    · cases h
  · cases h

theorem holds_of_convertField (hn : ∀ f ∈ trees, ∀ n, f.tree = .ok n → n.IsNormal) {key : String}
    {kind : FieldKind} {v : Json} (h : convertField key kind trees = .ok v) : kind.Holds v := by
  unfold convertField at h
  cases hf : trees.find? (·.key = key) with
  | none =>
    rw [hf] at h
    cases kind <;> cases h
    exact .optionalChild isNormal_null
  | some f =>
    have hm := List.mem_of_find?_eq_some hf
    rw [hf] at h
    cases kind with
    | child => exact .child (hn f hm v h)
    | optionalChild => exact .optionalChild (hn f hm v h)
    | name => exact .name v
    | number =>
      obtain ⟨x, -, rfl⟩ := map_eq_ok h
      exact .number x
    | string =>
      cases h
      exact .string _
    | boolean =>
      cases h
      exact .boolean _
    | binaryOp =>
      obtain ⟨s, hs, rfl⟩ := mem_of_memberOf h
      obtain ⟨op, -, rfl⟩ := List.mem_map.mp hs
      exact .binaryOp op
    | unaryOp =>
      obtain ⟨s, hs, rfl⟩ := mem_of_memberOf h
      obtain ⟨op, -, rfl⟩ := List.mem_map.mp hs
      exact .unaryOp op

theorem fieldsOf_of_mapM (hn : ∀ f ∈ trees, ∀ n, f.tree = .ok n → n.IsNormal)
    {shape : List (String × FieldKind)} {converted : List (String × Json)}
    (h : (shape.mapM fun field => do return (field.1, ← convertField field.1 field.2 trees)) =
      .ok converted) :
    ∃ values, List.Forall₂ (fun field v => field.2.Holds v) shape values ∧
      converted = fieldsOf shape values := by
  induction shape generalizing converted with
  | nil =>
    cases h
    exact ⟨[], .nil, rfl⟩
  | cons field shape ih =>
    rw [List.mapM_cons] at h
    obtain ⟨first, hfirst, h⟩ := bind_eq_ok h
    obtain ⟨v, hv, hpair⟩ := bind_eq_ok hfirst
    obtain ⟨rest, hrest, hcons⟩ := bind_eq_ok h
    obtain ⟨values, hvalues, rfl⟩ := ih hrest
    cases hpair
    cases hcons
    exact ⟨v :: values, .cons (holds_of_convertField hn hv) hvalues, rfl⟩

theorem isNode_of_convertNode (hn : ∀ f ∈ trees, ∀ n, f.tree = .ok n → n.IsNormal) {n : Json}
    (h : convertNode trees = .ok n) : n.IsNode := by
  rw [convertNode] at h
  obtain ⟨line, -, h⟩ := bind_eq_ok h
  obtain ⟨column, -, h⟩ := bind_eq_ok h
  dsimp only at h
  split at h
  · split at h
    · rename_i shape hs
      obtain ⟨converted, hm, h⟩ := bind_eq_ok h
      obtain ⟨values, hv, rfl⟩ := fieldsOf_of_mapM hn hm
      cases h
      exact .intro hs hv
    · cases h
  · cases h

end Fields

mutual

/-- What was read once is read again unchanged. -/
theorem isNormal_of_normalise : (v : Json) → {n : Json} → v.normalise = .ok n → n.IsNormal
  | .arr items, n, h => by
    have ih := @normaliseItems_idem items
    rw [normalise] at h
    obtain ⟨ns, hns, rfl⟩ := map_eq_ok h
    rw [IsNormal, normalise, ih hns]
    rfl
  | .obj fields, n, h => by
    have ih := fieldTrees_isNormal fields
    rw [normalise] at h
    exact (isNode_of_convertNode ih h).isNormal
  | .null, _, h | .bool _, _, h | .int _, _, h | .real _, _, h | .str _, _, h => by
    cases h
    rfl

theorem normaliseItems_idem : (items : List Json) → {ns : List Json} →
    normaliseItems items = .ok ns → normaliseItems ns = .ok ns
  | [], _, h => by
    cases h
    rfl
  | v :: rest, _, h => by
    have ih := @isNormal_of_normalise v
    have ih' := @normaliseItems_idem rest
    rw [normaliseItems] at h
    obtain ⟨n, hn, h⟩ := bind_eq_ok h
    obtain ⟨ns, hns, h⟩ := bind_eq_ok h
    cases h
    have hn : n.normalise = .ok n := ih hn
    rw [normaliseItems, hn, ih' hns]
    rfl

theorem fieldTrees_isNormal : (fields : List (String × Json)) →
    ∀ f ∈ fieldTrees fields, ∀ n, f.tree = .ok n → n.IsNormal
  | [] => fun _ hf => nomatch hf
  | (k, v) :: rest => by
    have ih := @isNormal_of_normalise v
    have ih' := fieldTrees_isNormal rest
    intro f hf n h
    rcases List.mem_cons.mp hf with rfl | hf
    · exact ih h
    · exact ih' f hf n h

end

theorem isNode_of_isNormal {fields : List (String × Json)} (h : (obj fields).IsNormal) :
    (obj fields).IsNode := by
  rw [IsNormal, normalise] at h
  exact isNode_of_convertNode (fieldTrees_isNormal fields) h

theorem IsNormal.items {items : List Json} (h : (arr items).IsNormal) :
    normaliseItems items = .ok items := by
  rw [IsNormal, normalise] at h
  obtain ⟨ns, hns, heq⟩ := map_eq_ok h
  cases heq
  exact hns

theorem isNormal_of_items {v : Json} {rest : List Json}
    (h : normaliseItems (v :: rest) = .ok (v :: rest)) :
    v.IsNormal ∧ normaliseItems rest = .ok rest := by
  rw [normaliseItems] at h
  obtain ⟨n, hn, h⟩ := bind_eq_ok h
  obtain ⟨ns, hns, h⟩ := bind_eq_ok h
  cases h
  exact ⟨hn, hns⟩

section Node

variable {k₁ k₂ k₃ kind : String} {line column : Int} {fields : List (String × Json)}

/-- The kind and the place of a node that is read unchanged stand under their names, -/
theorem IsNormal.eq_nodeTree
    (h : (obj ((k₁, .str kind) :: (k₂, .int line) :: (k₃, .int column) :: fields)).IsNormal) :
    obj ((k₁, .str kind) :: (k₂, .int line) :: (k₃, .int column) :: fields) =
      nodeTree kind ⟨line, column⟩ fields := by
  have hn := isNode_of_isNormal h
  generalize hv : obj _ = v at hn
  cases hn with
  | intro hs hh =>
    cases hv
    rfl

/-- and so do its other fields. -/
theorem IsNormal.exists_values
    (h : (obj ((k₁, .str kind) :: (k₂, .int line) :: (k₃, .int column) :: fields)).IsNormal)
    {shape : List (String × FieldKind)} (hs : nodeFields? kind = some shape) :
    ∃ values, List.Forall₂ (fun field v => field.2.Holds v) shape values ∧
      fields = operatorFirst (fieldsOf shape values) := by
  have hn := isNode_of_isNormal h
  generalize hv : obj _ = v at hn
  cases hn with
  | intro hs' hh =>
    cases hv
    cases hs.symm.trans hs'
    exact ⟨_, hh, rfl⟩

end Node

end Json

theorem Label.toTree_ofTree (v : Json) : (Label.ofTree v).toTree = v := by
  cases v <;> rfl

theorem FieldKind.Holds.isNormal {v : Json} (h : FieldKind.child.Holds v) : v.IsNormal := by
  cases h
  assumption

theorem BinaryOp.spelling_of_some {s : String} {op : BinaryOp}
    (h : BinaryOp.ofSpelling? s = some op) : op.spelling = s := by
  simpa using List.find?_some h

theorem UnaryOp.spelling_of_some {s : String} {op : UnaryOp}
    (h : UnaryOp.ofSpelling? s = some op) : op.spelling = s := by
  simpa using List.find?_some h

namespace Expr

theorem toTree_ofTree (n : Json) (h : n.IsNormal) : (ofTree n).toTree = n := by
  fun_induction ofTree n with
  | case1 | case2 | case3 =>
    obtain ⟨_, _ | ⟨_, ⟨⟩⟩, ⟨⟩⟩ := h.exists_values rfl
    exact h.eq_nodeTree.symm
  | case4 =>
    obtain ⟨_, _ | ⟨_, ⟨⟩⟩, ⟨⟩⟩ := h.exists_values rfl
    rw [h.eq_nodeTree, toTree, Label.toTree_ofTree]
  | case5 _ _ _ _ _ _ _ _ _ _ _ _ hop ihl ihr =>
    obtain ⟨_, _ | ⟨hl, _ | ⟨_, _ | ⟨hr, ⟨⟩⟩⟩⟩, ⟨⟩⟩ := h.exists_values rfl
    rw [h.eq_nodeTree, toTree, ihl hl.isNormal, ihr hr.isNormal, BinaryOp.spelling_of_some hop]
  | case7 _ _ _ _ _ _ _ _ _ _ hop ih =>
    obtain ⟨_, _ | ⟨_, _ | ⟨ho, ⟨⟩⟩⟩, ⟨⟩⟩ := h.exists_values rfl
    rw [h.eq_nodeTree, toTree, ih ho.isNormal, UnaryOp.spelling_of_some hop]
  -- an operator without a spelling leaves a node as it is, and so does a kind without a reading
  | case6 | case8 | case9 => exact h.eq_nodeTree.symm
  | case10 => rfl

theorem toTree_child {v : Json} (h : FieldKind.child.Holds v) : (ofTree v).toTree = v := by
  cases h with
  | child h => exact toTree_ofTree v h

theorem toTree?_optionalChild {v : Json} (h : FieldKind.optionalChild.Holds v) :
    toTree? (ofTree? v) = v := by
  cases h with
  | optionalChild h =>
    unfold ofTree?
    split
    · rfl
    · exact toTree_ofTree v h

end Expr

theorem Command.toTree_ofTree (n : Json) (h : n.IsNormal) : (ofTree n).toTree = n := by
  unfold ofTree
  split
  case h_2 => rfl
  split
  -- one argument that must be given
  case h_1 | h_3 | h_6 | h_8 =>
    obtain ⟨_, _ | ⟨h₁, ⟨⟩⟩, ⟨⟩⟩ := h.exists_values rfl
    rw [h.eq_nodeTree, toTree, Expr.toTree_child h₁]
  case h_2 =>
    obtain ⟨_, _ | ⟨h₁, _ | ⟨h₂, _ | ⟨h₃, ⟨⟩⟩⟩⟩, ⟨⟩⟩ := h.exists_values rfl
    rw [h.eq_nodeTree, toTree, Expr.toTree_child h₁, Expr.toTree_child h₂, Expr.toTree_child h₃]
  case h_4 =>
    obtain ⟨_, _ | ⟨h₁, ⟨⟩⟩, ⟨⟩⟩ := h.exists_values rfl
    rw [h.eq_nodeTree, toTree, Expr.toTree?_optionalChild h₁]
  case h_5 =>
    obtain ⟨_, _ | ⟨h₁, _ | ⟨h₂, _ | ⟨h₃, _ | ⟨h₄, ⟨⟩⟩⟩⟩⟩, ⟨⟩⟩ := h.exists_values rfl
    rw [h.eq_nodeTree, toTree, Expr.toTree_child h₁, Expr.toTree?_optionalChild h₂,
      Expr.toTree?_optionalChild h₃, Expr.toTree?_optionalChild h₄]
  case h_7 =>
    obtain ⟨_, _ | ⟨h₁, _ | ⟨h₂, ⟨⟩⟩⟩, ⟨⟩⟩ := h.exists_values rfl
    rw [h.eq_nodeTree, toTree, Expr.toTree_child h₁, Expr.toTree?_optionalChild h₂]
  case h_9 => exact h.eq_nodeTree.symm

/-- What is read in the place of a statement, of a body and of a list of statements is written as it
was. -/
theorem Stmt.toTree_ofTree_all :
    (∀ n : Json, n.IsNormal → (Stmt.ofTree n).toTree = n) ∧
      (∀ n : Json, n.IsNormal → (Body.ofTree n).toTree = n) ∧
        ∀ ns : List Json, Json.normaliseItems ns = .ok ns → toTrees (ofTrees ns) = ns := by
  refine Stmt.ofTree.mutual_induct _ _ _ ?declare ?assign ?branch ?choice ?loop ?command ?evaluate
    ?kind ?datum ?list ?noList ?nil ?cons
  case declare | assign =>
    intro _ _ _ _ _ _ _ _ _ h
    obtain ⟨_, _ | ⟨_, _ | ⟨h₂, ⟨⟩⟩⟩, ⟨⟩⟩ := h.exists_values rfl
    rw [ofTree, toTree, Label.toTree_ofTree, Expr.toTree_child h₂]
    exact h.eq_nodeTree.symm
  case branch =>
    intro _ _ _ _ _ _ _ _ _ _ hyes h
    obtain ⟨_, _ | ⟨h₁, _ | ⟨h₂, _ | ⟨_, ⟨⟩⟩⟩⟩, ⟨⟩⟩ := h.exists_values rfl
    rw [ofTree, toTree, Expr.toTree_child h₁, hyes h₂.isNormal]
    exact h.eq_nodeTree.symm
  case choice =>
    intro _ _ _ _ _ _ _ _ _ _ no hnull hyes hno h
    obtain ⟨_, _ | ⟨h₁, _ | ⟨h₂, _ | ⟨h₃, ⟨⟩⟩⟩⟩, ⟨⟩⟩ := h.exists_values rfl
    have h₃ : no.IsNormal := by
      cases h₃ with
      | optionalChild h => exact h
    rw [ofTree, toTree, Expr.toTree_child h₁, hyes h₂.isNormal, hno h₃]
    · exact h.eq_nodeTree.symm
    · exact hnull
  case loop =>
    intro _ _ _ _ _ _ _ _ _ hbody h
    obtain ⟨_, _ | ⟨h₁, _ | ⟨h₂, ⟨⟩⟩⟩, ⟨⟩⟩ := h.exists_values rfl
    rw [ofTree, toTree, Expr.toTree_child h₁, hbody h₂.isNormal]
    exact h.eq_nodeTree.symm
  case command =>
    intro _ _ _ _ _ _ _ h
    obtain ⟨_, _ | ⟨h₁, ⟨⟩⟩, ⟨⟩⟩ := h.exists_values rfl
    rw [ofTree, toTree, Command.toTree_ofTree _ h₁.isNormal]
    exact h.eq_nodeTree.symm
  case evaluate =>
    intro _ _ _ _ _ _ _ h
    obtain ⟨_, _ | ⟨h₁, ⟨⟩⟩, ⟨⟩⟩ := h.exists_values rfl
    rw [ofTree, toTree, Expr.toTree_child h₁]
    exact h.eq_nodeTree.symm
  case kind =>
    intro _ _ _ _ _ _ _ _ _ _ _ _ _ _ h
    rw [ofTree, toTree]
    · exact h.eq_nodeTree.symm
    all_goals assumption
  case datum =>
    intro v hv _
    rw [ofTree, toTree]
    exact hv
  case list =>
    intro items ih h
    rw [Body.ofTree, Body.toTree, ih h.items]
  case noList =>
    intro v hv _
    rw [Body.ofTree, Body.toTree]
    exact hv
  case nil => exact fun _ => rfl
  case cons =>
    intro v rest hv hrest h
    obtain ⟨hn, hns⟩ := Json.isNormal_of_items h
    rw [ofTrees, toTrees, hv hn, hrest hns]

namespace Program

theorem toTree_ofTree (n : Json) (h : n.IsNormal) : (ofTree n).toTree = n := by
  unfold ofTree
  split
  case h_2 => rfl
  split
  case h_1 =>
    obtain ⟨_, _ | ⟨h₁, ⟨⟩⟩, ⟨⟩⟩ := h.exists_values rfl
    rw [toTree, Stmt.toTree_ofTree_all.2.1 _ h₁.isNormal]
    exact h.eq_nodeTree.symm
  case h_2 => exact h.eq_nodeTree.symm

/-- Writing a tree loses nothing, whether it was made from a text or from data: the datum reads as
the tree. Reading and writing any datum settles it, whatever is read in the place of its root. -/
theorem reread :
    (∀ p : Program, ((∃ source, ofSource source = .ok p) ∨ ∃ v : Json, ofJson v = .ok p) →
      ofJson p.toTree = .ok p) ∧
    ∀ v n : Json, v.normalise = .ok n →
      n.normalise = .ok n ∧ (ofTree n).toTree = n ∧ (Body.ofTree n).toTree = n ∧
        (Stmt.ofTree n).toTree = n ∧ (Command.ofTree n).toTree = n ∧ (Expr.ofTree n).toTree = n := by
  constructor
  · rintro p (⟨source, h⟩ | ⟨v, h⟩)
    · exact ofJson_toTree h
    · obtain ⟨n, hn, rfl⟩ := map_eq_ok h
      have hn := Json.isNormal_of_normalise v hn
      rw [toTree_ofTree n hn, ofJson, hn]
      rfl
  · intro v n h
    have hn := Json.isNormal_of_normalise v h
    exact ⟨hn, toTree_ofTree n hn, Stmt.toTree_ofTree_all.2.1 n hn, Stmt.toTree_ofTree_all.1 n hn,
      Command.toTree_ofTree n hn, Expr.toTree_ofTree n hn⟩

/-- A line and a text that are given as truth values, an else block without statements, and a count
that is not given. -/
theorem reread_untidy :
    let v : Json := .obj [("statements", .arr [
      .obj [("type", .str "IfStatement"), ("line", .bool true),
        ("condition", .obj [("value", .str "no"), ("type", .str "BooleanLiteral")]),
        ("then_block", .arr []), ("else_block", .arr [])],
      .obj [("type", .str "CommandStatement"), ("command", .obj [("type", .str "DropCommand"),
        ("item", .obj [("type", .str "StringLiteral"), ("value", .bool true)])])]]),
      ("type", .str "Program")]
    let p : Program := .program ⟨0, 0⟩ (.statements [
      .branch ⟨1, 0⟩ (.boolean ⟨0, 0⟩ true) (.statements []) (some (.statements [])),
      .command ⟨0, 0⟩ (.drop ⟨0, 0⟩ (.string ⟨0, 0⟩ "True") none)])
    ofJson v = .ok p ∧ ofJson p.toTree = .ok p ∧ v.normalise = .ok p.toTree ∧
      p.toTree.normalise = .ok p.toTree := by
  intro v p
  have hv : v.normalise = .ok p.toTree := by rfl
  have hp : ofJson v = .ok p := by rfl
  exact ⟨hp, reread.1 p (.inr ⟨v, hp⟩), hv, (reread.2 v p.toTree hv).1⟩

end Program
end AgentScript

import AgentScript.Proofs.Syntax.Exact
import AgentScript.Proofs.Syntax.Node

/-! The tree of a source survives as data: it is normal, and it reads as the program. -/
namespace AgentScript

/-- An expression that survives as data. -/
structure Expr.Kept (e : Expr) : Prop where
  normal : e.toTree.IsNormal
  read : Expr.ofTree e.toTree = e
  isNode : e.toTree ≠ .null

namespace Expr

theorem kept_number (loc : Location) (x : Float) : (number loc x).Kept where
  normal := Json.normal_node rfl (.cons (.number x) .nil) rfl
  read := rfl
  isNode := nofun

theorem kept_string (loc : Location) (s : String) : (string loc s).Kept where
  normal := Json.normal_node rfl (.cons (.string s) .nil) rfl
  read := rfl
  isNode := nofun

theorem kept_boolean (loc : Location) (b : Bool) : (boolean loc b).Kept where
  normal := Json.normal_node rfl (.cons (.boolean b) .nil) rfl
  read := rfl
  isNode := nofun

theorem kept_reference (loc : Location) (name : String) : (reference loc (.word name)).Kept where
  normal := Json.normal_node rfl (.cons (.name (.str name)) .nil) rfl
  read := rfl
  isNode := nofun

variable {left right operand : Expr}

attribute [local simp] ofTree

theorem kept_binary (loc : Location) (op : BinaryOp) (ha : left.Kept) (hb : right.Kept) :
    (binary loc op left right).Kept where
  normal :=
    Json.normal_node rfl
      (.cons (.child ha.normal) (.cons (.binaryOp op) (.cons (.child hb.normal) .nil))) rfl
  read := by
    have ha := ha.read
    have hb := hb.read
    rw [toTree, nodeTree, ofTree]
    cases op <;> simp [BinaryOp.ofSpelling?, BinaryOp.all, BinaryOp.spelling, ha, hb]
  isNode := nofun

theorem kept_unary (loc : Location) (op : UnaryOp) (h : operand.Kept) :
    (unary loc op operand).Kept where
  normal := Json.normal_node rfl (.cons (.unaryOp op) (.cons (.child h.normal) .nil)) rfl
  read := by
    have h := h.read
    rw [toTree, nodeTree, ofTree]
    cases op <;> simp [UnaryOp.ofSpelling?, UnaryOp.all, UnaryOp.spelling, h]
  isNode := nofun

theorem toTree?_normal {o : Option Expr} (h : ∀ e ∈ o, e.Kept) : (toTree? o).IsNormal := by
  cases o with
  | none => exact Json.isNormal_null
  | some e => exact (h e rfl).normal

theorem ofTree?_toTree? {o : Option Expr} (h : ∀ e ∈ o, e.Kept) : ofTree? (toTree? o) = o := by
  cases o with
  | none => rfl
  | some e =>
    have he := h e rfl
    rw [toTree?, ofTree?, he.read]
    exact he.isNode

end Expr

structure Command.Kept (c : Command) : Prop where
  normal : c.toTree.IsNormal
  read : Command.ofTree c.toTree = c

namespace Command

variable {e x y z : Expr} {o o₁ o₂ o₃ : Option Expr} (loc : Location)

theorem kept_say (h : e.Kept) : (say loc e).Kept where
  normal := Json.normal_node rfl (.cons (.child h.normal) .nil) rfl
  read := congrArg (say loc) h.read

theorem kept_goto (hx : x.Kept) (hy : y.Kept) (hz : z.Kept) : (goto loc x y z).Kept where
  normal :=
    Json.normal_node rfl
      (.cons (.child hx.normal) (.cons (.child hy.normal) (.cons (.child hz.normal) .nil))) rfl
  read := by
    change goto loc _ _ _ = _
    rw [hx.read, hy.read, hz.read]

theorem kept_attack (h : e.Kept) : (attack loc e).Kept where
  normal := Json.normal_node rfl (.cons (.child h.normal) .nil) rfl
  read := congrArg (attack loc) h.read

theorem kept_dig (h : ∀ e ∈ o, e.Kept) : (dig loc o).Kept where
  normal := Json.normal_node rfl (.cons (.optionalChild (Expr.toTree?_normal h)) .nil) rfl
  read := congrArg (dig loc) (Expr.ofTree?_toTree? h)

theorem kept_place (h : e.Kept) (hx : ∀ e ∈ o₁, e.Kept) (hy : ∀ e ∈ o₂, e.Kept)
    (hz : ∀ e ∈ o₃, e.Kept) : (place loc e o₁ o₂ o₃).Kept where
  normal :=
    Json.normal_node rfl
      (.cons (.child h.normal) (.cons (.optionalChild (Expr.toTree?_normal hx))
        (.cons (.optionalChild (Expr.toTree?_normal hy))
          (.cons (.optionalChild (Expr.toTree?_normal hz)) .nil)))) rfl
  read := by
    change place loc _ _ _ _ = _
    rw [h.read, Expr.ofTree?_toTree? hx, Expr.ofTree?_toTree? hy, Expr.ofTree?_toTree? hz]

theorem kept_equip (h : e.Kept) : (equip loc e).Kept where
  normal := Json.normal_node rfl (.cons (.child h.normal) .nil) rfl
  read := congrArg (equip loc) h.read

theorem kept_drop (h : e.Kept) (ho : ∀ e ∈ o, e.Kept) : (drop loc e o).Kept where
  normal :=
    Json.normal_node rfl
      (.cons (.child h.normal) (.cons (.optionalChild (Expr.toTree?_normal ho)) .nil)) rfl
  read := by
    change drop loc _ _ = _
    rw [h.read, Expr.ofTree?_toTree? ho]

theorem kept_wait (h : e.Kept) : (wait loc e).Kept where
  normal := Json.normal_node rfl (.cons (.child h.normal) .nil) rfl
  read := congrArg (wait loc) h.read

end Command

structure Stmt.Kept (s : Stmt) : Prop where
  normal : s.toTree.IsNormal
  read : Stmt.ofTree s.toTree = s

structure Body.Kept (b : Body) : Prop where
  normal : b.toTree.IsNormal
  read : Body.ofTree b.toTree = b
  isList : b.toTree ≠ .null

namespace Stmt

attribute [local simp] ofTree

theorem toTrees_normal {list : List Stmt} (h : ∀ s ∈ list, s.Kept) :
    Json.normaliseItems (toTrees list) = .ok (toTrees list) := by
  induction list with
  | nil => rfl
  | cons s list ih =>
    have hs : s.toTree.normalise = .ok s.toTree := (h s (by simp)).normal
    rw [toTrees, Json.normaliseItems, hs, ih fun s' hs' => h s' (List.mem_cons_of_mem s hs')]
    rfl

theorem ofTrees_toTrees {list : List Stmt} (h : ∀ s ∈ list, s.Kept) :
    ofTrees (toTrees list) = list := by
  induction list with
  | nil => rfl
  | cons s list ih =>
    rw [toTrees, ofTrees, (h s (by simp)).read, ih fun s' hs' => h s' (List.mem_cons_of_mem s hs')]

theorem kept_statements {list : List Stmt} (h : ∀ s ∈ list, s.Kept) :
    (Body.statements list).Kept where
  normal := by
    rw [Body.toTree, Json.IsNormal, Json.normalise, toTrees_normal h]
    rfl
  read := by rw [Body.toTree, Body.ofTree, ofTrees_toTrees h]
  isList := by
    rw [Body.toTree]
    exact Json.noConfusion

variable {e : Expr} {c : Command} {yes no : Body} (loc : Location)

theorem kept_declare (name : String) (h : e.Kept) : (declare loc (.word name) e).Kept where
  normal := Json.normal_node rfl (.cons (.name (.str name)) (.cons (.child h.normal) .nil)) rfl
  read := by
    rw [toTree, nodeTree, ofTree]
    change declare loc (.word name) _ = _
    rw [h.read]

theorem kept_assign (name : String) (h : e.Kept) : (assign loc (.word name) e).Kept where
  normal := Json.normal_node rfl (.cons (.name (.str name)) (.cons (.child h.normal) .nil)) rfl
  read := by
    rw [toTree, nodeTree, ofTree]
    change assign loc (.word name) _ = _
    rw [h.read]

theorem kept_branch (h : e.Kept) (hy : yes.Kept) : (branch loc e yes none).Kept where
  normal :=
    Json.normal_node rfl
      (.cons (.child h.normal) (.cons (.child hy.normal)
        (.cons (.optionalChild Json.isNormal_null) .nil))) rfl
  read := by
    rw [toTree, nodeTree, ofTree]
    change branch loc _ _ none = _
    rw [h.read, hy.read]

theorem kept_choice (h : e.Kept) (hy : yes.Kept) (hn : no.Kept) :
    (branch loc e yes (some no)).Kept where
  normal :=
    Json.normal_node rfl
      (.cons (.child h.normal) (.cons (.child hy.normal)
        (.cons (.optionalChild hn.normal) .nil))) rfl
  read := by
    rw [toTree, nodeTree, ofTree]
    · rw [h.read, hy.read, hn.read]
    · exact hn.isList

theorem kept_loop (h : e.Kept) (hb : yes.Kept) : (loop loc e yes).Kept where
  normal := Json.normal_node rfl (.cons (.child h.normal) (.cons (.child hb.normal) .nil)) rfl
  read := by
    rw [toTree, nodeTree, ofTree]
    change loop loc _ _ = _
    rw [h.read, hb.read]

theorem kept_command (h : c.Kept) : (command loc c).Kept where
  normal := Json.normal_node rfl (.cons (.child h.normal) .nil) rfl
  read := by
    rw [toTree, nodeTree, ofTree]
    change command loc _ = _
    rw [h.read]

theorem kept_evaluate (h : e.Kept) : (evaluate loc e).Kept where
  normal := Json.normal_node rfl (.cons (.child h.normal) .nil) rfl
  read := by
    rw [toTree, nodeTree, ofTree]
    change evaluate loc _ = _
    rw [h.read]

end Stmt

namespace Grammar

theorem primary_kept {t : Token} {e : Expr} (h : primary? t = some e) : e.Kept := by
  unfold primary? at h
  split at h
  case h_6 => cases h
  all_goals cases h
  · exact Expr.kept_number ..
  · exact Expr.kept_string ..
  · exact Expr.kept_boolean ..
  · exact Expr.kept_boolean ..
  · exact Expr.kept_reference ..

mutual

theorem Phrase.kept : {k : Nat} → (d : Phrase k) → d.tree.Kept
  | _, .primary _ _ h => primary_kept h
  | _, .unary t op _ operand => Expr.kept_unary t.loc op operand.kept
  | _, .group _ inner _ => inner.kept
  | _, .chain first rest => rest.kept first.kept

theorem Tail.kept : {k : Nat} → {left : Expr} → (d : Tail k) → left.Kept → (d.tree left).Kept
  | _, _, .nil, hl => hl
  | _, _, .cons t op _ right rest, hl => rest.kept (Expr.kept_binary t.loc op hl right.kept)

end

theorem Arguments.kept (a : Arguments) : ∀ e ∈ a.trees, e.Kept := by
  cases a with
  | nil => exact fun _ he => nomatch he
  | cons first later =>
    intro e he
    rcases List.mem_cons.mp he with rfl | he
    · exact first.kept
    · obtain ⟨d, -, rfl⟩ := List.mem_map.mp he
      exact d.val.kept

theorem command_kept {loc : Location} {k : Keyword} {es : List Expr} {c : Command}
    (h : command? loc k es = some c) (he : ∀ e ∈ es, e.Kept) : c.Kept := by
  have none (e : Expr) (hm : e ∈ (none : Option Expr)) : e.Kept := nomatch hm
  have some {e : Expr} (h : e.Kept) (e' : Expr) (hm : e' ∈ Option.some e) : e'.Kept :=
    Option.some.inj hm ▸ h
  unfold command? at h
  split at h
  all_goals cases h
  all_goals simp only [List.forall_mem_cons, List.not_mem_nil, false_imp_iff, implies_true,
    and_true] at he
  · exact Command.kept_say loc he
  · exact Command.kept_goto loc he.1 he.2.1 he.2.2
  · exact Command.kept_attack loc he
  · exact Command.kept_dig loc none
  · exact Command.kept_dig loc (some he)
  · exact Command.kept_place loc he none none none
  · exact Command.kept_place loc he.1 (some he.2.1) (some he.2.2.1) (some he.2.2.2)
  · exact Command.kept_equip loc he
  · exact Command.kept_drop loc he none
  · exact Command.kept_drop loc he.1 (some he.2)
  · exact Command.kept_wait loc he

mutual

theorem Statement.kept : (d : Statement) → d.tree.Kept
  | .declare word name _ value => Stmt.kept_declare word.val.loc name.val.text value.kept
  | .assign word name _ value => Stmt.kept_assign word.val.loc name.val.text value.kept
  | .branch word condition _ yes _ =>
    Stmt.kept_branch word.val.loc condition.kept (Stmt.kept_statements yes.kept)
  | .choice word condition _ yes _ _ _ _ no _ =>
    Stmt.kept_choice word.val.loc condition.kept (Stmt.kept_statements yes.kept)
      (Stmt.kept_statements no.kept)
  | .loop word count _ body _ =>
    Stmt.kept_loop word.val.loc count.kept (Stmt.kept_statements body.kept)
  | .command word _ arguments _ _ hc => Stmt.kept_command word.loc (command_kept hc arguments.kept)
  | .evaluate e => Stmt.kept_evaluate _ e.kept

theorem Items.kept : (d : Items) → ∀ s ∈ d.trees, s.Kept
  | .nil => fun _ hs => nomatch hs
  | .newline _ rest => rest.kept
  | .last s => by
    have ih := s.kept
    intro s' hs
    rw [List.mem_singleton.mp hs]
    exact ih
  | .line s _ rest => by
    have ih := s.kept
    have ih' := rest.kept
    intro s' hs
    rcases List.mem_cons.mp hs with rfl | hs
    · exact ih
    · exact ih' s' hs

end

end Grammar

/-- The tree of a source reads as the program. -/
theorem Program.ofJson_toTree {source : String} {p : Program}
    (h : Program.ofSource source = .ok p) : ofJson p.toTree = .ok p := by
  obtain ⟨d, -, rfl⟩ := (Grammar.accepts_tokenize source p).mp h
  have hb := Stmt.kept_statements d.items.kept
  have hn : (toTree d.tree).normalise = .ok (toTree d.tree) :=
    Json.normal_node rfl (.cons (.child hb.normal) .nil) rfl
  rw [ofJson, hn]
  change Except.ok (program .start (Body.ofTree _)) = _
  rw [hb.read]
  rfl

end AgentScript

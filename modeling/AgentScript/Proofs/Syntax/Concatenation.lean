import AgentScript.Proofs.Syntax.Places
import AgentScript.Proofs.Token.Newline

/-! Scripts one after the other. A derivation can be moved to other places as a whole, and two of them
can be joined by a newline, so that the statements of both texts are those of the text that they
make up. -/
namespace AgentScript

/-! Trees at other places. A misfit has none, and stays. -/

section Relocate

variable (f : Location → Location)

namespace Expr

def relocate : Expr → Expr
  | number l x => .number (f l) x
  | string l s => .string (f l) s
  | boolean l b => .boolean (f l) b
  | reference l name => .reference (f l) name
  | binary l op left right => .binary (f l) op left.relocate right.relocate
  | unary l op operand => .unary (f l) op operand.relocate
  | misfit tree => .misfit tree

end Expr

namespace Command

def relocate : Command → Command
  | say l message => .say (f l) (message.relocate f)
  | goto l x y z => .goto (f l) (x.relocate f) (y.relocate f) (z.relocate f)
  | attack l target => .attack (f l) (target.relocate f)
  | dig l block => .dig (f l) (block.map (Expr.relocate f))
  | place l item x y z =>
    .place (f l) (item.relocate f) (x.map (Expr.relocate f)) (y.map (Expr.relocate f))
      (z.map (Expr.relocate f))
  | equip l item => .equip (f l) (item.relocate f)
  | drop l item count => .drop (f l) (item.relocate f) (count.map (Expr.relocate f))
  | wait l seconds => .wait (f l) (seconds.relocate f)
  | misfit tree => .misfit tree

end Command

mutual

def Stmt.relocate : Stmt → Stmt
  | .declare l name init => .declare (f l) name (init.relocate f)
  | .assign l name value => .assign (f l) name (value.relocate f)
  | .branch l condition yes none => .branch (f l) (condition.relocate f) yes.relocate none
  | .branch l condition yes (some no) =>
    .branch (f l) (condition.relocate f) yes.relocate (some no.relocate)
  | .loop l count body => .loop (f l) (count.relocate f) body.relocate
  | .command l c => .command (f l) (c.relocate f)
  | .evaluate l e => .evaluate (f l) (e.relocate f)
  | .misfit tree => .misfit tree

def Body.relocate : Body → Body
  | .statements list => .statements (Stmt.relocateAll list)
  | .misfit tree => .misfit tree

def Stmt.relocateAll : List Stmt → List Stmt
  | [] => []
  | s :: rest => s.relocate :: Stmt.relocateAll rest

end

theorem Stmt.relocateAll_eq_map (list : List Stmt) :
    Stmt.relocateAll f list = list.map (Stmt.relocate f) := by
  induction list with
  | nil => rfl
  | cons s rest ih => rw [Stmt.relocateAll, ih, List.map_cons]

end Relocate

namespace Grammar

variable (f : Location → Location)

theorem primary_relocate {t : Token} {e : Expr} (h : primary? t = some e) :
    primary? (t.relocate f) = some (e.relocate f) := by
  unfold primary? at h ⊢
  rw [Token.relocate_kind, Token.relocate_text]
  split at h
  case h_6 => cases h
  all_goals
    cases h
    rfl

theorem command_relocate {loc : Location} {k : Keyword} {es : List Expr} {c : Command}
    (h : command? loc k es = some c) :
    command? (f loc) k (es.map (Expr.relocate f)) = some (c.relocate f) := by
  unfold command? at h
  split at h
  case h_12 => cases h
  all_goals
    cases h
    rfl

def Terminal.relocate {kind : TokenKind} (t : Terminal kind) : Terminal kind :=
  ⟨t.val.relocate f, t.property⟩

mutual

/-- A phrase can be moved as a whole. -/
theorem Phrase.exists_relocate : {k : Nat} → (d : Phrase k) →
    ∃ d' : Phrase k, d'.tokens = d.tokens.map (Token.relocate f) ∧ d'.tree = d.tree.relocate f
  | _, .primary t e h => ⟨.primary (t.relocate f) (e.relocate f) (primary_relocate f h), rfl, rfl⟩
  | _, .unary t op h operand => by
    obtain ⟨operand', ht, he⟩ := operand.exists_relocate
    have h' : unaryOp? (t.relocate f).kind = some op := h
    refine ⟨.unary (t.relocate f) op h' operand', ?_, ?_⟩
    · rw [Phrase.tokens, ht, Phrase.tokens, List.map_cons]
    · rw [Phrase.tree, he, Phrase.tree, Expr.relocate, Token.relocate]
  | _, .group opening inner closing => by
    obtain ⟨inner', ht, he⟩ := inner.exists_relocate
    refine ⟨.group (opening.relocate f) inner' (closing.relocate f), ?_, he⟩
    simp [Phrase.tokens, ht, Terminal.relocate]
  | _, .chain first rest => by
    obtain ⟨first', ht, he⟩ := first.exists_relocate
    obtain ⟨rest', ht', he'⟩ := rest.exists_relocate
    refine ⟨.chain first' rest', ?_, ?_⟩
    · rw [Phrase.tokens, ht, ht', Phrase.tokens, List.map_append]
    · rw [Phrase.tree, he, he', Phrase.tree]

theorem Tail.exists_relocate : {k : Nat} → (d : Tail k) →
    ∃ d' : Tail k, d'.tokens = d.tokens.map (Token.relocate f) ∧
      ∀ left : Expr, d'.tree (left.relocate f) = (d.tree left).relocate f
  | _, .nil => ⟨.nil, rfl, fun _ => rfl⟩
  | k, .cons t op h right rest => by
    obtain ⟨right', ht, he⟩ := right.exists_relocate
    obtain ⟨rest', ht', he'⟩ := rest.exists_relocate
    have h' : binaryOp? k (t.relocate f).kind = some op := h
    refine ⟨.cons (t.relocate f) op h' right' rest', ?_, fun left => ?_⟩
    · simp [Tail.tokens, ht, ht']
    · rw [Tail.tree, he, Tail.tree, ← he']
      rfl

end

theorem later_relocate (later : List Later) :
    ∃ later' : List Later,
      later'.flatMap (·.val.tokens) = (later.flatMap (·.val.tokens)).map (Token.relocate f) ∧
      later'.map (·.val.tree) = (later.map (·.val.tree)).map (Expr.relocate f) := by
  induction later with
  | nil => exact ⟨[], rfl, rfl⟩
  | cons e later ih =>
    obtain ⟨d, ht, he⟩ := e.val.exists_relocate f
    obtain ⟨later', ht', he'⟩ := ih
    have hd : ∀ t ∈ d.tokens.head?, t.kind ≠ .symbol .minus := by
      rw [ht, List.head?_map]
      intro t hm
      obtain ⟨u, hu, rfl⟩ := Option.mem_map.mp hm
      exact e.property u hu
    refine ⟨⟨d, hd⟩ :: later', ?_, ?_⟩
    · rw [List.flatMap_cons, ht, ht', List.flatMap_cons, List.map_append]
    · rw [List.map_cons, he, he', List.map_cons, List.map_cons]

theorem Arguments.exists_relocate (a : Arguments) :
    ∃ a' : Arguments, a'.tokens = a.tokens.map (Token.relocate f) ∧
      a'.trees = a.trees.map (Expr.relocate f) := by
  cases a with
  | nil => exact ⟨.nil, rfl, rfl⟩
  | cons first later =>
    obtain ⟨first', ht, he⟩ := first.exists_relocate f
    obtain ⟨later', ht', he'⟩ := later_relocate f later
    refine ⟨.cons first' later', ?_, ?_⟩
    · rw [Arguments.tokens, ht, ht', Arguments.tokens, List.map_append]
    · rw [Arguments.trees, he, he', Arguments.trees, List.map_cons]

mutual

/-- A statement can be moved as a whole: one case for each construct. -/
theorem Statement.exists_relocate : (d : Statement) →
    ∃ d' : Statement, d'.tokens = d.tokens.map (Token.relocate f) ∧ d'.tree = d.tree.relocate f
  | .declare word name sign value => by
    obtain ⟨value', ht, he⟩ := value.exists_relocate f
    refine ⟨.declare (word.relocate f) (name.relocate f) (sign.relocate f) value', ?_, ?_⟩
    · simp [Statement.tokens, ht, Terminal.relocate]
    · rw [Statement.tree, he, Statement.tree, Stmt.relocate]
      rfl
  | .assign word name sign value => by
    obtain ⟨value', ht, he⟩ := value.exists_relocate f
    refine ⟨.assign (word.relocate f) (name.relocate f) (sign.relocate f) value', ?_, ?_⟩
    · simp [Statement.tokens, ht, Terminal.relocate]
    · rw [Statement.tree, he, Statement.tree, Stmt.relocate]
      rfl
  | .branch word condition opening yes closing => by
    obtain ⟨condition', ht, he⟩ := condition.exists_relocate f
    obtain ⟨yes', hyt, hy⟩ := yes.exists_relocate
    refine ⟨.branch (word.relocate f) condition' (opening.relocate f) yes' (closing.relocate f),
      ?_, ?_⟩
    · simp [Statement.tokens, ht, hyt, Terminal.relocate]
    · rw [Statement.tree, he, hy, Statement.tree, Stmt.relocate, Body.relocate,
        Stmt.relocateAll_eq_map]
      rfl
  | .choice word condition opening yes closing gap otherwise opening₂ no closing₂ => by
    obtain ⟨condition', ht, he⟩ := condition.exists_relocate f
    obtain ⟨yes', hyt, hy⟩ := yes.exists_relocate
    obtain ⟨no', hnt, hn⟩ := no.exists_relocate
    refine ⟨.choice (word.relocate f) condition' (opening.relocate f) yes' (closing.relocate f)
      (gap.map (Terminal.relocate f)) (otherwise.relocate f) (opening₂.relocate f) no'
      (closing₂.relocate f), ?_, ?_⟩
    · simp [Statement.tokens, ht, hyt, hnt, Terminal.relocate, Function.comp_def]
    · rw [Statement.tree, he, hy, hn, Statement.tree, Stmt.relocate, Body.relocate, Body.relocate,
        Stmt.relocateAll_eq_map, Stmt.relocateAll_eq_map]
      rfl
  | .loop word count opening body closing => by
    obtain ⟨count', ht, he⟩ := count.exists_relocate f
    obtain ⟨body', hbt, hb⟩ := body.exists_relocate
    refine ⟨.loop (word.relocate f) count' (opening.relocate f) body' (closing.relocate f), ?_, ?_⟩
    · simp [Statement.tokens, ht, hbt, Terminal.relocate]
    · rw [Statement.tree, he, hb, Statement.tree, Stmt.relocate, Body.relocate,
        Stmt.relocateAll_eq_map]
      rfl
  | .command word k arguments c hk hc => by
    obtain ⟨arguments', ht, he⟩ := arguments.exists_relocate f
    have hc' : command? (word.relocate f).loc k arguments'.trees = some (c.relocate f) := by
      rw [he]
      exact command_relocate f hc
    have hk' : (word.relocate f).kind = .keyword k := hk
    refine ⟨.command (word.relocate f) k arguments' (c.relocate f) hk' hc', ?_, rfl⟩
    rw [Statement.tokens, ht, Statement.tokens, List.map_cons]
  | .evaluate e => by
    obtain ⟨e', ht, he⟩ := Phrase.exists_relocate f e
    refine ⟨.evaluate e', ht, ?_⟩
    obtain ⟨t, ts, hts⟩ := List.exists_cons_of_ne_nil e.tokens_ne_nil
    rw [Statement.tree, ht, he, Statement.tree, hts]
    rfl

theorem Items.exists_relocate : (d : Items) →
    ∃ d' : Items, d'.tokens = d.tokens.map (Token.relocate f) ∧
      d'.trees = d.trees.map (Stmt.relocate f)
  | .nil => ⟨.nil, rfl, rfl⟩
  | .newline t rest => by
    obtain ⟨rest', ht, hs⟩ := rest.exists_relocate
    refine ⟨.newline (t.relocate f) rest', ?_, hs⟩
    rw [Items.tokens, ht, Items.tokens, List.map_cons]
    rfl
  | .last s => by
    obtain ⟨s', ht, hs⟩ := s.exists_relocate
    exact ⟨.last s', ht, congrArg ([·]) hs⟩
  | .line s t rest => by
    obtain ⟨s', ht, hs⟩ := s.exists_relocate
    obtain ⟨rest', ht', hs'⟩ := rest.exists_relocate
    refine ⟨.line s' (t.relocate f) rest', ?_, ?_⟩
    · simp [Items.tokens, ht, ht', Terminal.relocate]
    · rw [Items.trees, hs, hs', Items.trees, List.map_cons]

end

/-- Statements, a newline and more statements. -/
theorem Items.exists_join (t : Terminal .newline) : (d d' : Items) →
    ∃ whole : Items, whole.tokens = d.tokens ++ t.val :: d'.tokens ∧
      whole.trees = d.trees ++ d'.trees
  | .nil, d' => ⟨.newline t d', rfl, rfl⟩
  | .last s, d' => ⟨.line s t d', rfl, rfl⟩
  | .newline u rest, d' => by
    obtain ⟨whole, ht, hs⟩ := rest.exists_join t d'
    refine ⟨.newline u whole, ?_, hs⟩
    rw [Items.tokens, ht, Items.tokens, List.cons_append]
  | .line s u rest, d' => by
    obtain ⟨whole, ht, hs⟩ := rest.exists_join t d'
    refine ⟨.line s u whole, ?_, ?_⟩
    · rw [Items.tokens, ht, Items.tokens, List.append_assoc, List.cons_append]
    · rw [Items.trees, hs, Items.trees, List.cons_append]

end Grammar

namespace Program

/-- The text of two scripts with a newline between them holds the statements of the first, and then
those of the second further down, at the columns where they were. -/
theorem ofSource_append_newline {source₁ source₂ : String} {p₁ p₂ : Program}
    (h₁ : ofSource source₁ = .ok p₁) (h₂ : ofSource source₂ = .ok p₂) :
    ∃ list₁ list₂ : List Stmt, p₁ = ofStatements list₁ ∧ p₂ = ofStatements list₂ ∧
      ofSource (source₁ ++ "\n" ++ source₂) = .ok (ofStatements (list₁ ++
        list₂.map (Stmt.relocate (Location.down (source₁.toList.count '\n' + 1))))) := by
  obtain ⟨d₁, ht₁, rfl⟩ := (Grammar.accepts_tokenize source₁ p₁).mp h₁
  obtain ⟨d₂, ht₂, rfl⟩ := (Grammar.accepts_tokenize source₂ p₂).mp h₂
  refine ⟨d₁.items.trees, d₂.items.trees, rfl, rfl, (Grammar.accepts_tokenize _ _).mpr ?_⟩
  let f := Location.down (source₁.toList.count '\n' + 1)
  let t : Grammar.Terminal .newline :=
    ⟨⟨.newline, "\n", Location.start.afterAll source₁.toList⟩, rfl⟩
  obtain ⟨moved, hmoved, htrees⟩ := d₂.items.exists_relocate f
  obtain ⟨whole, hwhole, hlist⟩ := Grammar.Items.exists_join t d₁.items moved
  have htokens : tokenize (source₁ ++ "\n" ++ source₂) =
      d₁.items.tokens ++ t.val :: (tokenize source₂).map (Token.relocate f) := by
    have hs : (source₁ ++ "\n" ++ source₂).toList = source₁.toList ++ '\n' :: source₂.toList := by
      simp
    have hbody : (tokensOf .start (pieces source₁.toList)).dropLast = d₁.items.tokens := by
      change (tokenize source₁).dropLast = _
      rw [← ht₁]
      exact List.dropLast_concat
    rw [tokenize, hs, pieces_append_newline, tokensOf_append, hbody, textOfPieces_pieces, tokensOf]
    change _ ++ t.val :: tokensOf ((Location.start.afterAll source₁.toList).after '\n') _ = _
    rw [Location.after_newline, tokensOf_down]
    rfl
  refine ⟨⟨whole, d₂.stop.relocate f⟩, ?_, ?_⟩
  · rw [Grammar.Derivation.tokens, hwhole, hmoved, htokens, ← ht₂, Grammar.Derivation.tokens]
    simp [Grammar.Terminal.relocate]
  · rw [Grammar.Derivation.tree, hlist, htrees]

/-- The first script has a newline of its own and ends where an else block could follow, and the
second one begins in the middle of a line. -/
theorem ofSource_append_newline_branch :
    let b : Stmt := .branch ⟨1, 1⟩ (.boolean ⟨1, 4⟩ true) (.statements []) none
    let c (l : Int) : Stmt := .command ⟨l, 3⟩ (.say ⟨l, 3⟩ (.reference ⟨l, 7⟩ (.word "x")))
    ofSource "if true \x7b\n\x7d" = .ok (ofStatements [b]) ∧
      ofSource "  say x" = .ok (ofStatements [c 1]) ∧
      ofSource "if true \x7b\n\x7d\n  say x" = .ok (ofStatements [b, c 3]) := by
  intro b c
  have h₁ : ofSource "if true \x7b\n\x7d" = .ok (ofStatements [b]) := by
    with_unfolding_all rfl
  have h₂ : ofSource "  say x" = .ok (ofStatements [c 1]) := by
    with_unfolding_all rfl
  obtain ⟨list₁, list₂, he₁, he₂, h⟩ := ofSource_append_newline h₁ h₂
  cases he₁
  cases he₂
  exact ⟨h₁, h₂, h⟩

end Program
end AgentScript

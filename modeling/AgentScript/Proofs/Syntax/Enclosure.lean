import AgentScript.Proofs.Syntax.Concatenation

/-! Scripts inside of blocks. The statements of a block are those of the script that it holds, one
line further down, whatever the block belongs to. -/
namespace AgentScript

namespace Grammar

/-- A token that is an expression by itself. -/
def operand (t : Token) (e : Expr) (h : primary? t = some e) : Expression :=
  .chain (.chain (.chain (.chain (.chain (.chain (.primary t e h) .nil) .nil) .nil) .nil) .nil) .nil

theorem primary_one : primary? ⟨.number, "1", ⟨1, 8⟩⟩ = some (.number ⟨1, 8⟩ 1) := by
  have h : Number.readFloat? "1" = some 1 := by decide +kernel
  simp [primary?, h]

/-- Statements on lines of their own. They may be followed by the brace that closes their block: a
newline stands before it. -/
theorem Items.exists_own_lines (first last : Terminal .newline) (d : Items) :
    ∃ own : Items, own.tokens = first.val :: (d.tokens ++ [last.val]) ∧ own.trees = d.trees := by
  obtain ⟨closed, ht, hs⟩ := d.exists_join last .nil
  refine ⟨.newline first closed, ?_, ?_⟩
  · rw [Items.tokens, ht, Items.tokens]
  · rw [Items.trees, hs, Items.trees, List.append_nil]

/-- A script below an opening text and above a closing brace: its statements stand on lines of their
own, moved down by the lines of the opening text. -/
theorem Derivation.exists_enclosed {source : String} (d : Derivation)
    (hd : d.tokens = tokenize source) (opening : String) :
    ∃ (own : Items) (brace : Terminal (.symbol .closeBrace)) (stop : Terminal .endOfInput),
      tokenize (opening ++ "\n" ++ (source ++ "\n" ++ "\x7d")) =
        (tokenize opening).dropLast ++ (own.tokens ++ [brace.val]) ++ [stop.val] ∧
      own.trees =
        d.items.trees.map (Stmt.relocate (Location.down (opening.toList.count '\n' + 1))) := by
  let f := Location.down (opening.toList.count '\n' + 1)
  let g := Location.down (source.toList.count '\n' + 1)
  let first : Terminal .newline :=
    ⟨⟨.newline, "\n", Location.start.afterAll opening.toList⟩, rfl⟩
  let last : Terminal .newline := ⟨⟨.newline, "\n", Location.start.afterAll source.toList⟩, rfl⟩
  let brace : Terminal (.symbol .closeBrace) := ⟨⟨.symbol .closeBrace, "\x7d", ⟨1, 1⟩⟩, rfl⟩
  let stop : Terminal .endOfInput := ⟨⟨.endOfInput, "", ⟨1, 2⟩⟩, rfl⟩
  have hbrace : tokenize "\x7d" = [brace.val, stop.val] := by
    with_unfolding_all rfl
  have hbody : (tokenize source).dropLast = d.items.tokens := by
    rw [← hd]
    exact List.dropLast_concat
  obtain ⟨moved, hm, hms⟩ := d.items.exists_relocate f
  obtain ⟨own, ht, hs⟩ := moved.exists_own_lines first (last.relocate f)
  refine ⟨own, (brace.relocate g).relocate f, (stop.relocate g).relocate f, ?_, hs.trans hms⟩
  rw [tokenize_join opening, tokenize_join source, hbrace, hbody, ht, hm]
  simp [Terminal.relocate, f, g, first, last]

end Grammar

namespace Program

open Grammar (Items Statement Terminal)

/-- A statement that ends with a block may have any script in that block. -/
theorem exists_ofSource_enclosed {source text : String} {d : Grammar.Derivation}
    (hd : d.tokens = tokenize source) (opening : String)
    (hline : opening.toList.count '\n' = 0) (htext : text = opening ++ "\n")
    (block : Items → Terminal (.symbol .closeBrace) → Statement)
    (hblock : ∀ own brace, (block own brace).tokens =
      (tokenize opening).dropLast ++ (own.tokens ++ [brace.val])) :
    ∃ own brace, own.trees = d.items.trees.map (Stmt.relocate (Location.down 1)) ∧
      ofSource (text ++ source ++ "\n\x7d") = .ok (ofStatements [(block own brace).tree]) := by
  obtain ⟨own, brace, stop, ht, hs⟩ := d.exists_enclosed hd opening
  rw [hline] at hs
  refine ⟨own, brace, hs, (Grammar.accepts_tokenize _ _).mpr
    ⟨⟨.last (block own brace), stop⟩, ?_, rfl⟩⟩
  have hwhole : text ++ source ++ "\n\x7d" = opening ++ "\n" ++ (source ++ "\n" ++ "\x7d") := by
    have hend : "\n\x7d" = "\n" ++ "\x7d" := rfl
    rw [htext, hend]
    simp only [String.append_assoc]
  rw [hwhole, ht, Grammar.Derivation.tokens, Items.tokens, hblock]

/-- The block of a condition, the body of a loop and the block after `else` hold what a program
holds: a text that is a program has in each of them the statements of that program, one line further
down. -/
theorem ofSource_enclosed {source : String} {p : Program} (h : ofSource source = .ok p) :
    ∃ list : List Stmt, p = ofStatements list ∧
      let lower : Body := .statements (list.map (Stmt.relocate (Location.down 1)))
      let always : Expr := .boolean ⟨1, 4⟩ true
      ofSource ("if true \x7b\n" ++ source ++ "\n\x7d") =
        .ok (ofStatements [.branch ⟨1, 1⟩ always lower none]) ∧
      ofSource ("repeat 1 \x7b\n" ++ source ++ "\n\x7d") =
        .ok (ofStatements [.loop ⟨1, 1⟩ (.number ⟨1, 8⟩ 1) lower]) ∧
      ofSource ("if true \x7b \x7d else \x7b\n" ++ source ++ "\n\x7d") =
        .ok (ofStatements [.branch ⟨1, 1⟩ always (.statements []) (some lower)]) := by
  obtain ⟨d, hd, rfl⟩ := (Grammar.accepts_tokenize source p).mp h
  let branching : Terminal (.keyword .ifWord) := ⟨⟨.keyword .ifWord, "IF", ⟨1, 1⟩⟩, rfl⟩
  let condition := Grammar.operand ⟨.keyword .trueWord, "TRUE", ⟨1, 4⟩⟩ (.boolean ⟨1, 4⟩ true) rfl
  let opens (column : Int) : Terminal (.symbol .openBrace) :=
    ⟨⟨.symbol .openBrace, "\x7b", ⟨1, column⟩⟩, rfl⟩
  refine ⟨d.items.trees, rfl, ?_, ?_, ?_⟩
  · have ht : (tokenize "if true \x7b").dropLast =
        branching.val :: (condition.tokens ++ [(opens 9).val]) := by
      with_unfolding_all rfl
    obtain ⟨own, closing, hs, ho⟩ := exists_ofSource_enclosed hd "if true \x7b" (by decide) rfl
      (.branch branching condition (opens 9)) fun own closing => by
        rw [ht]
        simp [Statement.tokens]
    rw [Statement.tree, hs] at ho
    exact ho
  · let word : Terminal (.keyword .repeatWord) := ⟨⟨.keyword .repeatWord, "REPEAT", ⟨1, 1⟩⟩, rfl⟩
    let count := Grammar.operand ⟨.number, "1", ⟨1, 8⟩⟩ (.number ⟨1, 8⟩ 1) Grammar.primary_one
    have ht : (tokenize "repeat 1 \x7b").dropLast =
        word.val :: (count.tokens ++ [(opens 10).val]) := by
      with_unfolding_all rfl
    obtain ⟨own, closing, hs, ho⟩ := exists_ofSource_enclosed hd "repeat 1 \x7b" (by decide) rfl
      (.loop word count (opens 10)) fun own closing => by
        rw [ht]
        simp [Statement.tokens]
    rw [Statement.tree, hs] at ho
    exact ho
  · let closes : Terminal (.symbol .closeBrace) := ⟨⟨.symbol .closeBrace, "\x7d", ⟨1, 11⟩⟩, rfl⟩
    let otherwise : Terminal (.keyword .elseWord) := ⟨⟨.keyword .elseWord, "ELSE", ⟨1, 13⟩⟩, rfl⟩
    have ht : (tokenize "if true \x7b \x7d else \x7b").dropLast =
        branching.val :: (condition.tokens ++
          [(opens 9).val, closes.val, otherwise.val, (opens 18).val]) := by
      with_unfolding_all rfl
    obtain ⟨own, closing, hs, ho⟩ :=
      exists_ofSource_enclosed hd "if true \x7b \x7d else \x7b" (by decide) rfl
        (.choice branching condition (opens 9) .nil closes [] otherwise (opens 18))
        fun own closing => by
          rw [ht]
          simp [Statement.tokens, Items.tokens]
    rw [Statement.tree, hs] at ho
    exact ho

/-- A script with a blank line, a condition that an `else` could follow, and a comment. -/
theorem ofSource_enclosed_branch :
    let b (l : Int) : Stmt := .branch ⟨l, 1⟩ (.boolean ⟨l, 4⟩ true) (.statements []) none
    let always : Expr := .boolean ⟨1, 4⟩ true
    ofSource "\nif true \x7b \x7d # done" = .ok (ofStatements [b 2]) ∧
      ofSource ("if true \x7b\n" ++ "\nif true \x7b \x7d # done" ++ "\n\x7d") =
        .ok (ofStatements [.branch ⟨1, 1⟩ always (.statements [b 3]) none]) ∧
      ofSource ("repeat 1 \x7b\n" ++ "\nif true \x7b \x7d # done" ++ "\n\x7d") =
        .ok (ofStatements [.loop ⟨1, 1⟩ (.number ⟨1, 8⟩ 1) (.statements [b 3])]) ∧
      ofSource ("if true \x7b \x7d else \x7b\n" ++ "\nif true \x7b \x7d # done" ++ "\n\x7d") =
        .ok (ofStatements
          [.branch ⟨1, 1⟩ always (.statements []) (some (.statements [b 3]))]) := by
  intro b always
  have h : ofSource "\nif true \x7b \x7d # done" = .ok (ofStatements [b 2]) := by
    with_unfolding_all rfl
  obtain ⟨list, he, hbranch, hloop, hotherwise⟩ := ofSource_enclosed h
  cases he
  exact ⟨h, hbranch, hloop, hotherwise⟩

end Program
end AgentScript

import AgentScript.Proofs.Syntax.Exact
import AgentScript.Proofs.Syntax.Proper

/-! The trees of sources are proper, and every node of such a tree stands where a token of the source
stands. -/
namespace AgentScript

namespace Grammar

variable {P : Location → Prop}

theorem primary_over {t : Token} {e : Expr} (h : primary? t = some e) (ht : P t.loc) :
    e.Over P := by
  unfold primary? at h
  split at h
  case h_6 => cases h
  all_goals cases h
  · exact .number ht _
  · exact .string ht _
  · exact .boolean ht true
  · exact .boolean ht false
  · exact .reference ht (.word _)

mutual

theorem Phrase.over : {k : Nat} → (d : Phrase k) → (∀ t ∈ d.tokens, P t.loc) → d.tree.Over P
  | _, .primary t e h, ht => primary_over h (ht t (by simp [Phrase.tokens]))
  | _, .unary t op _ operand, ht => by
    have ih := operand.over fun t hm => ht t (by simp [Phrase.tokens, hm])
    exact .unary (ht t (by simp [Phrase.tokens])) op ih
  | _, .group _ inner _, ht => inner.over fun t hm => ht t (by simp [Phrase.tokens, hm])
  | _, .chain first rest, ht => by
    have ih := first.over fun t hm => ht t (by simp [Phrase.tokens, hm])
    exact rest.over ih fun t hm => ht t (by simp [Phrase.tokens, hm])

theorem Tail.over : {k : Nat} → {left : Expr} → (d : Tail k) → left.Over P →
    (∀ t ∈ d.tokens, P t.loc) → (d.tree left).Over P
  | _, _, .nil, hl, _ => hl
  | _, _, .cons t op _ right rest, hl, ht => by
    have ih := right.over fun t hm => ht t (by simp [Tail.tokens, hm])
    have hnode := Expr.Over.binary (ht t (by simp [Tail.tokens])) op hl ih
    exact rest.over hnode fun t hm => ht t (by simp [Tail.tokens, hm])

end

theorem Phrase.tokens_ne_nil {k : Nat} (d : Phrase k) : d.tokens ≠ [] := by
  cases d with
  | primary => exact List.cons_ne_nil _ _
  | unary => exact List.cons_ne_nil _ _
  | group => exact List.cons_ne_nil _ _
  | chain first _ =>
    have ih := first.tokens_ne_nil
    simp [Phrase.tokens, ih]

theorem Arguments.over (a : Arguments) (ht : ∀ t ∈ a.tokens, P t.loc) :
    ∀ e ∈ a.trees, e.Over P := by
  cases a with
  | nil => exact fun _ he => nomatch he
  | cons first later =>
    intro e he
    rcases List.mem_cons.mp he with rfl | he
    · exact first.over fun t hm => ht t (by simp [Arguments.tokens, hm])
    · obtain ⟨d, hd, rfl⟩ := List.mem_map.mp he
      refine d.val.over fun t hm => ht t ?_
      exact List.mem_append_right _ (List.mem_flatMap.mpr ⟨d, hd, hm⟩)

/-- A command is a node that takes the arguments that were written. -/
theorem command_over {loc : Location} {k : Keyword} {es : List Expr} {c : Command}
    (h : command? loc k es = some c) (he : ∀ e ∈ es, e.Over P) : c.Over P := by
  unfold command? at h
  split at h
  all_goals cases h
  case h_4 => exact ⟨.dig .., by simp [Command.arguments]⟩
  all_goals exact ⟨by constructor, by simpa [Command.arguments] using he⟩

mutual

theorem Statement.over : (d : Statement) → (∀ t ∈ d.tokens, P t.loc) → d.tree.Over P
  | .declare word name sign value, ht => by
    have ih := Phrase.over value fun t hm => ht t (by simp [Statement.tokens, hm])
    exact .declare (ht _ (by simp [Statement.tokens])) (.word _) ih
  | .assign word name sign value, ht => by
    have ih := Phrase.over value fun t hm => ht t (by simp [Statement.tokens, hm])
    exact .assign (ht _ (by simp [Statement.tokens])) (.word _) ih
  | .branch word condition opening yes closing, ht => by
    have ihc := Phrase.over condition fun t hm => ht t (by simp [Statement.tokens, hm])
    have ihy := yes.over fun t hm => ht t (by simp [Statement.tokens, hm])
    exact .branch (ht _ (by simp [Statement.tokens])) ihc (.statements ihy) fun _ hb => nomatch hb
  | .choice word condition opening yes closing gap otherwise opening' no closing', ht => by
    have ihc := Phrase.over condition fun t hm => ht t (by simp [Statement.tokens, hm])
    have ihy := yes.over fun t hm => ht t (by simp [Statement.tokens, hm])
    have ihn := no.over fun t hm => ht t (by simp [Statement.tokens, hm])
    refine .branch (ht _ (by simp [Statement.tokens])) ihc (.statements ihy) fun body hb => ?_
    cases hb
    exact .statements ihn
  | .loop word count opening body closing, ht => by
    have ihc := Phrase.over count fun t hm => ht t (by simp [Statement.tokens, hm])
    have ihb := body.over fun t hm => ht t (by simp [Statement.tokens, hm])
    exact .loop (ht _ (by simp [Statement.tokens])) ihc (.statements ihb)
  | .command word k arguments c hk hc, ht => by
    have iha := arguments.over fun t hm => ht t (by simp [Statement.tokens, hm])
    exact .command (ht _ (by simp [Statement.tokens])) (command_over hc iha)
  | .evaluate e, ht => by
    have ih := Phrase.over e ht
    obtain ⟨t, r, hr⟩ := List.exists_cons_of_ne_nil (Phrase.tokens_ne_nil e)
    refine .evaluate ?_ ih
    rw [hr]
    exact ht t (by simp [Statement.tokens, hr])

theorem Items.over : (d : Items) → (∀ t ∈ d.tokens, P t.loc) → ∀ s ∈ d.trees, s.Over P
  | .nil, _ => fun _ hs => nomatch hs
  | .newline t rest, ht => by
    have ih := rest.over fun t hm => ht t (by simp [Items.tokens, hm])
    exact ih
  | .last s, ht => by
    have ih := s.over ht
    intro s' hs
    rw [List.mem_singleton.mp hs]
    exact ih
  | .line s t rest, ht => by
    have ih := s.over fun t hm => ht t (by simp [Items.tokens, hm])
    have ih' := rest.over fun t hm => ht t (by simp [Items.tokens, hm])
    intro s' hs
    rcases List.mem_cons.mp hs with rfl | hs
    · exact ih
    · exact ih' s' hs

end

theorem Derivation.over (d : Derivation) (ht : ∀ t ∈ d.tokens, P t.loc) : d.tree.Over P :=
  .program .start (.statements (d.items.over fun t hm => ht t (List.mem_append_left _ hm)))

end Grammar

def Location.InSource (source : String) (l : Location) : Prop :=
  ∃ t ∈ tokenize source, t.loc = l

theorem tokensPast_loc (before : List Char) (ps : List Piece) :
    ∀ t ∈ tokensPast before ps, ∃ cs, cs <+: before ++ textOfPieces ps ∧ t.loc = .past cs := by
  induction ps generalizing before with
  | nil =>
    intro t ht
    rw [List.mem_singleton.mp ht]
    exact ⟨before, List.prefix_append _ _, rfl⟩
  | cons p ps ih =>
    intro t ht
    rw [textOfPieces_cons, ← List.append_assoc]
    rcases List.mem_append.mp ht with ht | ht
    · refine ⟨before, (List.prefix_append _ _).trans (List.prefix_append _ _), ?_⟩
      cases p with
      | gap c => simp [Piece.token?] at ht
      | comment cs => simp [Piece.token?] at ht
      | lexeme kind cs =>
        obtain rfl : t = ⟨kind, Piece.textOf kind cs, .past before⟩ := by
          simpa [Piece.token?] using ht
        rfl
    · exact ih _ t ht

/-- Every token stands behind some of the text. -/
theorem Location.InSource.exists_past {source : String} {l : Location} (h : l.InSource source) :
    ∃ cs, cs <+: source.toList ∧ l = .past cs := by
  obtain ⟨t, ht, rfl⟩ := h
  have hc : tokenize source = tokensPast [] (pieces source.toList) := tokensOf_past [] _
  rw [hc] at ht
  have hl := tokensPast_loc _ _ t ht
  rwa [List.nil_append, textOfPieces_pieces] at hl

/-- Lines and columns are counted from one. -/
theorem Location.InSource.positive {source : String} {l : Location} (h : l.InSource source) :
    0 < l.line ∧ 0 < l.column := by
  obtain ⟨cs, -, rfl⟩ := h.exists_past
  simp only [Location.past]
  omega

theorem Program.over_source {source : String} {p : Program} (h : Program.ofSource source = .ok p) :
    p.Over (·.InSource source) := by
  obtain ⟨d, hd, rfl⟩ := (Grammar.accepts_tokenize source p).mp h
  refine d.over fun t ht => ⟨t, ?_, rfl⟩
  rwa [← hd]

end AgentScript

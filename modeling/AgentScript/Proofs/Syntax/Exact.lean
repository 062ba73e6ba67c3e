import AgentScript.Proofs.Syntax.Readable
import AgentScript.Proofs.Syntax.Soundness
import AgentScript.Proofs.Syntax.Uniqueness

/-! The parser accepts the token lists of the lexer that have a derivation, and gives the tree of
their only derivation. -/
namespace AgentScript.Grammar

open AgentScript.Parser

/-- A token that a program may hold before its end. -/
def Inner (t : Token) : Prop := t.kind ≠ .invalid ∧ t.kind ≠ .endOfInput

theorem Terminal.inner {kind : TokenKind} (t : Terminal kind)
    (h : kind ≠ .invalid ∧ kind ≠ .endOfInput) : Inner t.val := by
  rw [Inner, t.property]
  exact h

theorem inner_of_primary {t : Token} {e : Expr} (h : primary? t = some e) : Inner t := by
  unfold primary? at h
  split at h
  case h_6 => cases h
  all_goals
    next hk =>
      rw [Inner, hk]
      decide

theorem inner_of_unaryOp {t : Token} {op : UnaryOp} (h : unaryOp? t.kind = some op) :
    Inner t := by
  unfold unaryOp? at h
  split at h
  case h_3 => cases h
  all_goals
    next hk =>
      rw [Inner, hk]
      decide

theorem inner_of_binaryOp {k : Nat} {t : Token} {op : BinaryOp}
    (h : binaryOp? k t.kind = some op) : Inner t := by
  constructor
  all_goals
    intro hk
    rw [hk] at h
    unfold binaryOp? at h
    split at h <;> simp_all

mutual

theorem Phrase.inner : {k : Nat} → (d : Phrase k) → ∀ t ∈ d.tokens, Inner t
  | _, .primary t e h => by
    simpa [Phrase.tokens] using inner_of_primary h
  | _, .unary t op h operand => by
    have ih := operand.inner
    simpa [Phrase.tokens] using ⟨inner_of_unaryOp h, ih⟩
  | _, .group opening inner closing => by
    have ih := inner.inner
    have ho := Terminal.inner opening (by decide)
    have hc := Terminal.inner closing (by decide)
    simp only [Phrase.tokens, List.mem_cons, List.mem_append, List.not_mem_nil, or_false]
    rintro t (rfl | ht | rfl)
    · exact ho
    · exact ih t ht
    · exact hc
  | _, .chain first rest => by
    have ih := first.inner
    have ih' := rest.inner
    simp only [Phrase.tokens, List.mem_append]
    rintro t (ht | ht)
    · exact ih t ht
    · exact ih' t ht

theorem Tail.inner : {k : Nat} → (d : Tail k) → ∀ t ∈ d.tokens, Inner t
  | _, .nil => by simp [Tail.tokens]
  | _, .cons t op h right rest => by
    have ih := right.inner
    have ih' := rest.inner
    simp only [Tail.tokens, List.mem_cons, List.mem_append]
    rintro t (rfl | ht | ht)
    · exact inner_of_binaryOp h
    · exact ih t ht
    · exact ih' t ht

end

theorem Arguments.inner (a : Arguments) : ∀ t ∈ a.tokens, Inner t := by
  cases a with
  | nil => simp [Arguments.tokens]
  | cons first later =>
    simp only [Arguments.tokens, List.mem_append, List.mem_flatMap]
    rintro t (ht | ⟨e, -, ht⟩)
    · exact first.inner t ht
    · exact e.val.inner t ht

mutual

theorem Statement.inner : (d : Statement) → ∀ t ∈ d.tokens, Inner t
  | .declare word name sign value => by
    have hv := value.inner
    simp only [Statement.tokens, List.mem_cons]
    rintro t (rfl | rfl | rfl | ht)
    · exact Terminal.inner word (by decide)
    · exact Terminal.inner name (by decide)
    · exact Terminal.inner sign (by decide)
    · exact hv t ht
  | .assign word name sign value => by
    have hv := value.inner
    simp only [Statement.tokens, List.mem_cons]
    rintro t (rfl | rfl | rfl | ht)
    · exact Terminal.inner word (by decide)
    · exact Terminal.inner name (by decide)
    · exact Terminal.inner sign (by decide)
    · exact hv t ht
  | .branch word condition opening yes closing => by
    have hc := condition.inner
    have hy := yes.inner
    simp only [Statement.tokens, List.mem_cons, List.mem_append, List.not_mem_nil, or_false]
    rintro t (rfl | ht | rfl | ht | rfl)
    · exact Terminal.inner word (by decide)
    · exact hc t ht
    · exact Terminal.inner opening (by decide)
    · exact hy t ht
    · exact Terminal.inner closing (by decide)
  | .choice word condition opening yes closing gap otherwise opening' no closing' => by
    have hc := condition.inner
    have hy := yes.inner
    have hn := no.inner
    simp only [Statement.tokens, List.mem_cons, List.mem_append, List.not_mem_nil, or_false,
      List.mem_map]
    rintro t (rfl | ht | rfl | ht | rfl | ⟨t, -, rfl⟩ | rfl | rfl | ht | rfl)
    · exact Terminal.inner word (by decide)
    · exact hc t ht
    · exact Terminal.inner opening (by decide)
    · exact hy t ht
    · exact Terminal.inner closing (by decide)
    · exact Terminal.inner t (by decide)
    · exact Terminal.inner otherwise (by decide)
    · exact Terminal.inner opening' (by decide)
    · exact hn t ht
    · exact Terminal.inner closing' (by decide)
  | .loop word count opening body closing => by
    have hc := count.inner
    have hb := body.inner
    simp only [Statement.tokens, List.mem_cons, List.mem_append, List.not_mem_nil, or_false]
    rintro t (rfl | ht | rfl | ht | rfl)
    · exact Terminal.inner word (by decide)
    · exact hc t ht
    · exact Terminal.inner opening (by decide)
    · exact hb t ht
    · exact Terminal.inner closing (by decide)
  | .command word k arguments c hk hc => by
    have ha := arguments.inner
    simp only [Statement.tokens, List.mem_cons]
    rintro t (rfl | ht)
    · rw [Inner, hk]
      simp
    · exact ha t ht
  | .evaluate e => Phrase.inner e

theorem Items.inner : (d : Items) → ∀ t ∈ d.tokens, Inner t
  | .nil => by simp [Items.tokens]
  | .newline t rest => by
    have ih := rest.inner
    simp only [Items.tokens, List.mem_cons]
    rintro t' (rfl | ht)
    · exact Terminal.inner t (by decide)
    · exact ih t' ht
  | .last s => s.inner
  | .line s t rest => by
    have hs := s.inner
    have ih := rest.inner
    simp only [Items.tokens, List.mem_cons, List.mem_append]
    rintro t' (ht | rfl | ht)
    · exact hs t' ht
    · exact Terminal.inner t (by decide)
    · exact ih t' ht

end

/-- The lexer writes lexemes, and one end of input after them. -/
theorem exists_body {ps : List Piece} (h : ProperCut ps) (before : List Char) :
    ∃ (body : List Token) (stop : Terminal .endOfInput),
      tokensPast before ps = body ++ [stop.val] ∧
      ∀ t ∈ body, ∃ cs, t.kind.Writes t.text cs := by
  induction ps generalizing before with
  | nil => exact ⟨[], ⟨_, rfl⟩, rfl, by simp⟩
  | cons p ps ih =>
    obtain ⟨hp, hps⟩ := h
    obtain ⟨body, stop, ht, hb⟩ := ih hps (before ++ p.chars)
    refine ⟨(p.token? (.past before)).toList ++ body, stop, ?_, ?_⟩
    · rw [tokensPast, ht, List.append_assoc]
    · intro t hm
      rcases List.mem_append.mp hm with hm | hm
      · cases p with
        | gap c => simp [Piece.token?] at hm
        | comment cs => simp [Piece.token?] at hm
        | lexeme kind cs =>
          obtain rfl : t = ⟨kind, Piece.textOf kind cs, .past before⟩ := by
            simpa [Piece.token?] using hm
          exact ⟨cs, hp.1⟩
      · exact hb t hm

theorem split_append {body : List Token} (h : ∀ t ∈ body, t.kind ≠ .endOfInput)
    (stop : Terminal .endOfInput) (more : List Token) :
    split (body ++ stop.val :: more) = (body, stop.val) := by
  have hb : ∀ t ∈ body, decide (t.kind ≠ .endOfInput) = true := by simpa using h
  have ht : (body ++ stop.val :: more).takeWhile (fun t => decide (t.kind ≠ .endOfInput)) =
      body := by
    rw [List.takeWhile_append_of_pos hb, List.takeWhile_cons_of_neg (by simp [stop.property]),
      List.append_nil]
  have hd : (body ++ stop.val :: more).dropWhile (fun t => decide (t.kind ≠ .endOfInput)) =
      stop.val :: more := by
    rw [List.dropWhile_append_of_pos hb, List.dropWhile_cons_of_neg (by simp [stop.property])]
  rw [split, ht, hd]

theorem Derivation.unique {d d' : Derivation} (h : d.tokens = d'.tokens) : d = d' := by
  obtain ⟨hi, hs⟩ := List.append_inj' h rfl
  have hr : Stops [] := by simp [Stops]
  have hu := d.items.unique d'.items (r := []) (by rw [hi]) hr hr
  have hstop := Subtype.ext (List.cons.inj hs).1
  cases d
  cases d'
  rw [Derivation.mk.injEq]
  exact ⟨hu.1, hstop⟩

/-- What is accepted can be derived, and the other way round. -/
theorem accepts_iff {body : List Token} (stop : Terminal .endOfInput)
    (hr : ∀ t ∈ body, Readable t) (he : ∀ t ∈ body, t.kind ≠ .endOfInput) (p : Program) :
    Program.ofTokens (body ++ [stop.val]) = .ok p ↔
      ∃ d : Derivation, d.tokens = body ++ [stop.val] ∧ d.tree = p := by
  rw [Program.ofTokens, split_append he stop []]
  dsimp only
  constructor
  · intro h
    cases hs : statements stop.val body with
    | error e =>
      rw [hs] at h
      cases h
    | ok ss =>
      rw [hs] at h
      cases h
      obtain ⟨d, rfl, rfl⟩ := statements_derives hr hs
      exact ⟨⟨d, stop⟩, rfl, rfl⟩
  · rintro ⟨d, hd, rfl⟩
    obtain ⟨rfl, -⟩ := List.append_inj' hd rfl
    rw [d.items.accepted stop.val hr]
    rfl

theorem Derivation.ne_invalid (d : Derivation) : ∀ t ∈ d.tokens, t.kind ≠ .invalid := by
  intro t hm
  rcases List.mem_append.mp hm with hm | hm
  · exact (d.items.inner t hm).1
  · obtain rfl : t = d.stop.val := by simpa using hm
    rw [d.stop.property]
    decide

/-- The lexer hands on what the parser can read, and one end of input after it. -/
theorem exists_readable (source : String) :
    ∃ (body : List Token) (stop : Terminal .endOfInput), tokenize source = body ++ [stop.val] ∧
      (∀ t ∈ body, Readable t) ∧ ∀ t ∈ body, t.kind ≠ .endOfInput := by
  have ht : tokenize source = tokensPast [] (pieces source.toList) := tokensOf_past [] _
  obtain ⟨body, stop, hs, hw⟩ := exists_body (properCut_pieces source.toList) []
  refine ⟨body, stop, ht.trans hs, fun t hm => ?_, fun t hm hk => ?_⟩
  · obtain ⟨cs, h⟩ := hw t hm
    exact readable_of_writes h t.loc
  · obtain ⟨cs, h⟩ := hw t hm
    rw [hk] at h
    exact h

/-- What is accepted of a text is what can be derived. -/
theorem accepts_tokenize (source : String) (p : Program) :
    Program.ofTokens (tokenize source) = .ok p ↔
      ∃ d : Derivation, d.tokens = tokenize source ∧ d.tree = p := by
  obtain ⟨body, stop, ht, hr, he⟩ := exists_readable source
  rw [ht]
  exact accepts_iff stop hr he p

theorem parse_exact (source : String) :
    (∀ p, Program.ofTokens (tokenize source) = .ok p ↔
      ∃ d : Derivation, d.tokens = tokenize source ∧ d.tree = p) ∧
    (∀ d d' : Derivation, d.tokens = tokenize source → d'.tokens = tokenize source → d = d') ∧
    ∀ t ∈ tokenize source, t.kind = .invalid →
      ∀ p, Program.ofTokens (tokenize source) ≠ .ok p := by
  have hp := accepts_tokenize source
  refine ⟨hp, ?_, ?_⟩
  · intro d d' hd hd'
    exact Derivation.unique (hd.trans hd'.symm)
  · intro t hm hk p h
    obtain ⟨d, hd, -⟩ := (hp p).mp h
    rw [← hd] at hm
    exact d.ne_invalid t hm hk

end AgentScript.Grammar

import AgentScript.Proofs.Syntax.Command

/-! The parser reads every statement that can be derived, and accepts every program. -/
namespace AgentScript.Grammar

open AgentScript.Parser

variable {stop : Token}

theorem reads_take (stop : Token) (wanted : String) {kind : TokenKind} (t : Terminal kind)
    (r : List Token) : Reads (take stop kind wanted (t.val :: r)) t.val r := by
  refine ⟨by simp, ?_⟩
  rw [take, if_pos t.property]

theorem reads_binding (stop : Token) (keyword : String) (name : Terminal .identifier)
    (sign : Terminal (.symbol .assign)) (e : Expression) (hd : ∀ t ∈ e.tokens, Readable t)
    {r : List Token} (hr : Clear 6 r) :
    Reads (binding stop keyword (name.val :: sign.val :: (e.tokens ++ r)))
      (name.val.text, e.tree) r := by
  obtain ⟨h₁, hn⟩ := reads_take stop ("variable name after " ++ keyword) name
    (sign.val :: (e.tokens ++ r))
  obtain ⟨h₂, hs⟩ := reads_take stop ("'=' after variable name '" ++ name.val.text ++ "'") sign
    (e.tokens ++ r)
  obtain ⟨h₃, he⟩ : Reads (expr stop (e.tokens ++ r)) e.tree r := e.reads hd hr
  refine ⟨by simp; omega, ?_⟩
  simp only [binding, hn, hs, he, bind, Except.bind]
  rfl

theorem clear_openBrace (t : Terminal (.symbol .openBrace)) (r : List Token) (k : Nat) :
    Clear k (t.val :: r) := clear_cons (by rw [t.property]; rfl) r

/-- A newline ends a statement when no `else` follows the newlines. -/
theorem concludes_newline (t : Terminal .newline) {r : List Token}
    (h : ∀ t ∈ (r.dropWhile isNewline).head?, t.kind ≠ .keyword .elseWord) :
    Concludes (t.val :: r) := by
  refine ⟨?_, ?_⟩
  · intro t' ht'
    obtain rfl : t.val = t' := by simpa using ht'
    exact .inl t.property
  · rw [List.dropWhile_cons_of_pos (by simp [isNewline, t.property])]
    exact h

def sortOf : TokenKind → Nat
  | .keyword .varWord => 0
  | .keyword .setWord => 1
  | .keyword .ifWord => 2
  | .keyword .repeatWord => 3
  | .keyword k => if k.isCommand then 4 else 5
  | _ => 5

def Statement.sort : Statement → Nat
  | .declare .. => 0
  | .assign .. => 1
  | .branch .. | .choice .. => 2
  | .loop .. => 3
  | .command .. => 4
  | .evaluate _ => 5

theorem sortOf_of_startsExpr {kind : TokenKind} (h : startsExpr kind = true) :
    sortOf kind = 5 := by
  unfold startsExpr at h
  split at h <;> first | rfl | cases h

theorem isCommand_of_command? {loc : Location} {k : Keyword} {es : List Expr} {c : Command}
    (h : command? loc k es = some c) : k.isCommand = true := by
  unfold command? at h
  split at h <;> first | rfl | cases h

theorem sortOf_of_isCommand {k : Keyword} (h : k.isCommand = true) :
    sortOf (.keyword k) = 4 := by
  cases k <;> first | rfl | cases h

theorem Statement.exists_head (d : Statement) :
    ∃ t ts, d.tokens = t :: ts ∧ sortOf t.kind = d.sort ∧ t.kind ≠ .newline ∧
      t.kind ≠ .symbol .closeBrace ∧ t.kind ≠ .keyword .elseWord := by
  cases d with
  | declare word name sign value =>
    refine ⟨_, _, rfl, ?_⟩
    rw [word.property]
    exact ⟨rfl, by decide⟩
  | assign word name sign value =>
    refine ⟨_, _, rfl, ?_⟩
    rw [word.property]
    exact ⟨rfl, by decide⟩
  | branch word condition opening yes closing =>
    refine ⟨_, _, rfl, ?_⟩
    rw [word.property]
    exact ⟨rfl, by decide⟩
  | choice word condition opening yes closing gap otherwise opening' no closing' =>
    refine ⟨_, _, rfl, ?_⟩
    rw [word.property]
    exact ⟨rfl, by decide⟩
  | loop word count opening body closing =>
    refine ⟨_, _, rfl, ?_⟩
    rw [word.property]
    exact ⟨rfl, by decide⟩
  | command word k arguments c hk hc =>
    have hi := isCommand_of_command? hc
    refine ⟨_, _, rfl, ?_⟩
    rw [hk]
    refine ⟨sortOf_of_isCommand hi, by simp, by simp, ?_⟩
    rintro ⟨⟩
    cases hi
  | evaluate e =>
    obtain ⟨t, ts, ht, hs⟩ := e.exists_head
    refine ⟨t, ts, ht, sortOf_of_startsExpr hs, ?_⟩
    refine ⟨?_, ?_, ?_⟩ <;> intro hk <;> rw [hk] at hs <;> cases hs

/-- No `else` stands after the newlines at the head of some statements, if none stands after those
that follow them. -/
theorem Items.noElse {r : List Token}
    (hr : ∀ t ∈ (r.dropWhile isNewline).head?, t.kind ≠ .keyword .elseWord) : (d : Items) →
    ∀ t ∈ ((d.tokens ++ r).dropWhile isNewline).head?, t.kind ≠ .keyword .elseWord
  | .nil => hr
  | .newline t rest => by
    rw [Items.tokens, List.cons_append,
      List.dropWhile_cons_of_pos (by simp [isNewline, t.property])]
    exact rest.noElse hr
  | .last s => by
    obtain ⟨t, ts, ht, -, hn, -, he⟩ := s.exists_head
    rw [Items.tokens, ht, List.cons_append, List.dropWhile_cons_of_neg (by simp [isNewline, hn])]
    simpa using he
  | .line s _ rest => by
    obtain ⟨t, ts, ht, -, hn, -, he⟩ := s.exists_head
    rw [Items.tokens, ht, List.append_assoc, List.cons_append,
      List.dropWhile_cons_of_neg (by simp [isNewline, hn])]
    simpa using he

theorem reads_evaluate {t : Token} (hk : sortOf t.kind = 5) {e : Expr} {ts r : List Token}
    (hp : Reads (expr stop (t :: ts)) e r) :
    Reads (statement stop (t :: ts)) (.evaluate t.loc e) r := by
  obtain ⟨hl, hp⟩ := hp
  refine ⟨hl, ?_⟩
  unfold statement
  split
  case h_1 h | h_2 h | h_3 h | h_4 h =>
    rw [h] at hk
    cases hk
  case h_5 k _ _ _ _ h =>
    have hn : ¬k.isCommand = true := by
      intro hc
      rw [h, sortOf_of_isCommand hc] at hk
      cases hk
    rw [if_neg hn, hp]
    rfl
  case h_6 =>
    rw [hp]
    rfl

theorem reads_command {word : Token} {k : Keyword} (hk : word.kind = .keyword k) {c : Command}
    (hi : k.isCommand = true) {ts r : List Token} (hp : Reads (command stop word.loc k ts) c r) :
    Reads (statement stop (word :: ts)) (.command word.loc c) r := by
  obtain ⟨hl, hp⟩ := hp
  refine ⟨by simp; omega, ?_⟩
  unfold statement
  split
  case h_5 k' _ _ _ _ h =>
    rw [hk] at h
    cases h
    simp only [hi, if_true, hp, bind, Except.bind]
    rfl
  case h_6 _ _ _ _ h => exact absurd hk (h k)
  all_goals
    next h =>
      rw [hk] at h
      cases h
      cases hi

theorem reads_declare (word : Terminal (.keyword .varWord)) {name : String} {e : Expr}
    {ts r : List Token} (hp : Reads (binding stop "var" ts) (name, e) r) :
    Reads (statement stop (word.val :: ts)) (.declare word.val.loc (.word name) e) r := by
  obtain ⟨hl, hp⟩ := hp
  refine ⟨by simp; omega, ?_⟩
  unfold statement
  simp only [word.property, hp, bind, Except.bind]
  rfl

theorem reads_assign (word : Terminal (.keyword .setWord)) {name : String} {e : Expr}
    {ts r : List Token} (hp : Reads (binding stop "set" ts) (name, e) r) :
    Reads (statement stop (word.val :: ts)) (.assign word.val.loc (.word name) e) r := by
  obtain ⟨hl, hp⟩ := hp
  refine ⟨by simp; omega, ?_⟩
  unfold statement
  simp only [word.property, hp, bind, Except.bind]
  rfl

theorem reads_loop (word : Terminal (.keyword .repeatWord)) {count : Expr} {body : List Stmt}
    {ts ts' r : List Token} (opening : Terminal (.symbol .openBrace))
    (he : Reads (expr stop ts) count (opening.val :: ts'))
    (hb : Reads (items stop "repeat count" ts') body r) :
    Reads (statement stop (word.val :: ts)) (.loop word.val.loc count (.statements body)) r := by
  obtain ⟨hl, he⟩ := he
  obtain ⟨hl', hb⟩ := hb
  obtain ⟨ht, ho⟩ := reads_take stop "'\x7b' after repeat count" opening ts'
  refine ⟨by simp at hl ⊢; omega, ?_⟩
  unfold statement
  simp only [word.property, he, ho, hb, bind, Except.bind]
  rfl

theorem reads_branch (word : Terminal (.keyword .ifWord)) {condition : Expr} {yes : List Stmt}
    {ts ts' r : List Token} (opening : Terminal (.symbol .openBrace))
    (he : Reads (expr stop ts) condition (opening.val :: ts'))
    (hb : Reads (items stop "if condition" ts') yes r) (hr : afterElse? r = none) :
    Reads (statement stop (word.val :: ts))
      (.branch word.val.loc condition (.statements yes) none) r := by
  obtain ⟨hl, he⟩ := he
  obtain ⟨hl', hb⟩ := hb
  obtain ⟨ht, ho⟩ := reads_take stop "'\x7b' after if condition" opening ts'
  refine ⟨by simp at hl ⊢; omega, ?_⟩
  unfold statement
  simp only [word.property, he, ho, hb, hr, bind, Except.bind]
  rfl

theorem reads_choice (word : Terminal (.keyword .ifWord)) {condition : Expr}
    {yes no : List Stmt} {ts ts' r' r : List Token} (opening : Terminal (.symbol .openBrace))
    (gap : List (Terminal .newline)) (otherwise : Terminal (.keyword .elseWord))
    (opening' : Terminal (.symbol .openBrace))
    (he : Reads (expr stop ts) condition (opening.val :: ts'))
    (hy : Reads (items stop "if condition" ts') yes
      (gap.map (·.val) ++ otherwise.val :: opening'.val :: r'))
    (hn : Reads (items stop "else" r') no r) :
    Reads (statement stop (word.val :: ts))
      (.branch word.val.loc condition (.statements yes) (some (.statements no))) r := by
  obtain ⟨h₁, he⟩ := he
  obtain ⟨h₂, ho⟩ := reads_take stop "'\x7b' after if condition" opening ts'
  obtain ⟨h₃, hy⟩ := hy
  obtain ⟨h₄, hg⟩ := afterElse?_gap gap otherwise (opening'.val :: r')
  obtain ⟨h₅, ho'⟩ := reads_take stop "'\x7b' after else" opening' r'
  obtain ⟨h₆, hn⟩ := hn
  refine ⟨by simp at h₁ h₃ ⊢; omega, ?_⟩
  unfold statement
  simp only [word.property, he, ho, hy, hg, ho', hn, bind, Except.bind]
  rfl

theorem reads_newline (t : Terminal .newline) (owner : String) {rest : List Stmt}
    {ts r : List Token} (hp : Reads (items stop owner ts) rest r) :
    Reads (items stop owner (t.val :: ts)) rest r := by
  obtain ⟨hl, hp⟩ := hp
  refine ⟨by simp; omega, ?_⟩
  unfold items
  rw [if_pos t.property, hp]
  rfl

theorem reads_closing (stop : Token) (owner : String) (c : Terminal (.symbol .closeBrace))
    (r : List Token) : Reads (items stop owner (c.val :: r)) [] r := by
  refine ⟨by simp, ?_⟩
  unfold items
  rw [if_neg (by rw [c.property]; simp), if_pos c.property]

theorem endsStatement_of_concludes {inBlock : Bool} {ts : List Token} (h : Concludes ts)
    (hs : inBlock = true ∨ ∀ t ∈ ts.head?, t.kind = .newline) :
    endsStatement inBlock stop ts = .ok () := by
  unfold endsStatement
  cases ts with
  | nil => rfl
  | cons t r =>
    rcases h.head t rfl with hk | hk
    · simp [hk]
    · rcases hs with rfl | hs
      · simp [hk]
      · simp [hs t rfl]

theorem reads_item (owner : String) {s : Stmt} {rest : List Stmt} {t : Token}
    {ts r r' : List Token} (hn : t.kind ≠ .newline) (hc : t.kind ≠ .symbol .closeBrace)
    (hp : Reads (statement stop (t :: ts)) s r) (hr : Concludes r)
    (hq : Reads (items stop owner r) rest r') :
    Reads (items stop owner (t :: ts)) (s :: rest) r' := by
  obtain ⟨hl, hp⟩ := hp
  obtain ⟨hl', hq⟩ := hq
  refine ⟨by simp at hl ⊢; omega, ?_⟩
  have he : endsStatement true stop r = .ok () := endsStatement_of_concludes hr (.inl rfl)
  unfold items
  simp only [hn, hc, if_false, hp, he, hq, bind, Except.bind]
  rfl

theorem stops_closing (c : Terminal (.symbol .closeBrace)) (r : List Token) :
    Stops (c.val :: r) := by
  intro t ht
  obtain rfl : c.val = t := by simpa using ht
  exact c.property

/-- A statement ends before the newline that parts it from the statements after it. -/
theorem concludes_line (t : Terminal .newline) (rest : Items) {r : List Token} (hr : Stops r) :
    Concludes (t.val :: (rest.tokens ++ r)) :=
  concludes_newline t (rest.noElse hr.concludes.noElse)

mutual

/-- The parser reads a statement as the tree that its derivation writes. -/
theorem Statement.reads (stop : Token) : (d : Statement) → (∀ t ∈ d.tokens, Readable t) →
    {r : List Token} → Concludes r → Reads (statement stop (d.tokens ++ r)) d.tree r
  | .declare word name sign value, hd, r, hr => by
    have hv : ∀ t ∈ value.tokens, Readable t := fun t ht => hd t (by simp [Statement.tokens, ht])
    exact reads_declare word (reads_binding stop "var" name sign value hv (hr.clear 6))
  | .assign word name sign value, hd, r, hr => by
    have hv : ∀ t ∈ value.tokens, Readable t := fun t ht => hd t (by simp [Statement.tokens, ht])
    exact reads_assign word (reads_binding stop "set" name sign value hv (hr.clear 6))
  | .branch word condition opening yes closing, hd, r, hr => by
    have hc : ∀ t ∈ condition.tokens, Readable t :=
      fun t ht => hd t (by simp [Statement.tokens, ht])
    have hy : ∀ t ∈ yes.tokens, Readable t := fun t ht => hd t (by simp [Statement.tokens, ht])
    have he : Reads (expr stop _) condition.tree _ := condition.reads hc
      (clear_openBrace opening (yes.tokens ++ closing.val :: r) 6)
    have hb := yes.reads stop hy "if condition" closing r
    have ht : (Statement.branch word condition opening yes closing).tokens ++ r = word.val ::
        (condition.tokens ++ opening.val :: (yes.tokens ++ closing.val :: r)) := by
      simp [Statement.tokens]
    rw [ht]
    exact reads_branch word opening he hb (afterElse?_eq_none hr.noElse)
  | .choice word condition opening yes closing gap otherwise opening' no closing', hd, r, hr => by
    have hc : ∀ t ∈ condition.tokens, Readable t :=
      fun t ht => hd t (by simp [Statement.tokens, ht])
    have hy : ∀ t ∈ yes.tokens, Readable t := fun t ht => hd t (by simp [Statement.tokens, ht])
    have hn : ∀ t ∈ no.tokens, Readable t := fun t ht => hd t (by simp [Statement.tokens, ht])
    have he : Reads (expr stop _) condition.tree _ := condition.reads hc
      (clear_openBrace opening (yes.tokens ++ closing.val :: (gap.map (·.val) ++
        otherwise.val :: opening'.val :: (no.tokens ++ closing'.val :: r))) 6)
    have hb := yes.reads stop hy "if condition" closing
      (gap.map (·.val) ++ otherwise.val :: opening'.val :: (no.tokens ++ closing'.val :: r))
    have hb' := no.reads stop hn "else" closing' r
    have ht : (Statement.choice word condition opening yes closing gap otherwise opening' no
          closing').tokens ++ r =
        word.val :: (condition.tokens ++ opening.val :: (yes.tokens ++ closing.val ::
          (gap.map (·.val) ++ otherwise.val :: opening'.val ::
            (no.tokens ++ closing'.val :: r)))) := by
      simp [Statement.tokens]
    rw [ht]
    exact reads_choice word opening gap otherwise opening' he hb hb'
  | .loop word count opening body closing, hd, r, hr => by
    have hc : ∀ t ∈ count.tokens, Readable t := fun t ht => hd t (by simp [Statement.tokens, ht])
    have hy : ∀ t ∈ body.tokens, Readable t := fun t ht => hd t (by simp [Statement.tokens, ht])
    have he : Reads (expr stop _) count.tree _ := count.reads hc
      (clear_openBrace opening (body.tokens ++ closing.val :: r) 6)
    have hb := body.reads stop hy "repeat count" closing r
    have ht : (Statement.loop word count opening body closing).tokens ++ r = word.val ::
        (count.tokens ++ opening.val :: (body.tokens ++ closing.val :: r)) := by
      simp [Statement.tokens]
    rw [ht]
    exact reads_loop word opening he hb
  | .command word k arguments c hk hc, hd, r, hr => by
    have ha : ∀ t ∈ arguments.tokens, Readable t :=
      fun t ht => hd t (by simp [Statement.tokens, ht])
    exact reads_command hk (isCommand_of_command? hc) (arguments.reads hc ha hr)
  | .evaluate e, hd, r, hr => by
    obtain ⟨t, ts, ht, hs⟩ := e.exists_head
    have he : Reads (expr stop (e.tokens ++ r)) e.tree r := e.reads hd (hr.clear 6)
    rw [Statement.tokens, Statement.tree]
    rw [ht, List.cons_append] at he ⊢
    exact reads_evaluate (sortOf_of_startsExpr hs) he

/-- The parser reads a block up to its closing brace. -/
theorem Items.reads (stop : Token) : (d : Items) → (∀ t ∈ d.tokens, Readable t) →
    (owner : String) → (c : Terminal (.symbol .closeBrace)) → (r : List Token) →
    Reads (items stop owner (d.tokens ++ c.val :: r)) d.trees r
  | .nil, _, owner, c, r => reads_closing stop owner c r
  | .newline t rest, hd, owner, c, r => by
    have hp := rest.reads stop (fun t ht => hd t (by simp [Items.tokens, ht])) owner c r
    exact reads_newline t owner hp
  | .last s, hd, owner, c, r => by
    obtain ⟨t, ts, ht, -, hn, hc, -⟩ := s.exists_head
    have hp := s.reads stop hd (stops_closing c r).concludes
    rw [Items.tokens, Items.trees]
    rw [ht, List.cons_append] at hp ⊢
    exact reads_item owner hn hc hp (stops_closing c r).concludes (reads_closing stop owner c r)
  | .line s t' rest, hd, owner, c, r => by
    obtain ⟨t, ts, ht, -, hn, hc, -⟩ := s.exists_head
    have hs : ∀ t ∈ s.tokens, Readable t := fun t ht => hd t (by simp [Items.tokens, ht])
    have hr : Concludes (t'.val :: (rest.tokens ++ c.val :: r)) :=
      concludes_line t' rest (stops_closing c r)
    have hp := s.reads stop hs hr
    have hq := rest.reads stop (fun t ht => hd t (by simp [Items.tokens, ht])) owner c r
    rw [Items.tokens, Items.trees, List.append_assoc, List.cons_append]
    rw [ht, List.cons_append] at hp ⊢
    exact reads_item owner hn hc hp hr (reads_newline t' owner hq)

end

theorem accepts_newline (t : Terminal .newline) (ts : List Token) :
    statements stop (t.val :: ts) = statements stop ts := by
  rw [statements, if_pos t.property]

theorem accepts_item {s : Stmt} {rest : List Stmt} {t : Token} {ts r : List Token}
    (hn : t.kind ≠ .newline) (hp : Reads (statement stop (t :: ts)) s r) (hr : Concludes r)
    (hs : ∀ t ∈ r.head?, t.kind = .newline) (hq : statements stop r = .ok rest) :
    statements stop (t :: ts) = .ok (s :: rest) := by
  obtain ⟨hl, hp⟩ := hp
  have he : endsStatement false stop r = .ok () := endsStatement_of_concludes hr (.inr hs)
  rw [statements, if_neg hn]
  simp only [hp, he, hq, bind, Except.bind]
  rfl

/-- The parser accepts every program that can be derived. -/
theorem Items.accepted (stop : Token) : (d : Items) → (∀ t ∈ d.tokens, Readable t) →
    statements stop d.tokens = .ok d.trees
  | .nil, _ => by
    rw [Items.tokens, statements]
    rfl
  | .newline t rest, hd => by
    have hq := rest.accepted stop (fun t ht => hd t (by simp [Items.tokens, ht]))
    rw [Items.tokens, accepts_newline]
    exact hq
  | .last s, hd => by
    obtain ⟨t, ts, ht, -, hn, -, -⟩ := s.exists_head
    have hr : Concludes [] := ⟨by simp, by simp⟩
    have hp := s.reads stop hd hr
    rw [Items.tokens, Items.trees]
    rw [List.append_nil, ht] at hp
    rw [ht]
    exact accepts_item hn hp hr (by simp) (by rw [statements])
  | .line s t' rest, hd => by
    obtain ⟨t, ts, ht, -, hn, -, -⟩ := s.exists_head
    have hs : ∀ t ∈ s.tokens, Readable t := fun t ht => hd t (by simp [Items.tokens, ht])
    have hr : Concludes (t'.val :: rest.tokens) := by
      have hr : Stops [] := by simp [Stops]
      simpa using concludes_line t' rest hr
    have hp := s.reads stop hs hr
    have hq := rest.accepted stop (fun t ht => hd t (by simp [Items.tokens, ht]))
    rw [Items.tokens, Items.trees]
    rw [ht, List.cons_append] at hp ⊢
    refine accepts_item hn hp hr (by simp [t'.property]) ?_
    rw [accepts_newline]
    exact hq

end AgentScript.Grammar

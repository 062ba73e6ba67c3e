import AgentScript.Proofs.Syntax.Exact
import AgentScript.Proofs.Syntax.Viable

/-! The parser reports the first token at which a text cannot be continued to a program. -/
namespace AgentScript.Grammar

open AgentScript.Parser

variable {stop : Token}

/-! Bindings. -/

def IsBinding (ts : List Token) : Prop :=
  ∃ (name : Terminal .identifier) (sign : Terminal (.symbol .assign)) (value : Expression),
    name.val :: sign.val :: value.tokens = ts

theorem viable_value {name sign : Token} (hn : name.kind = .identifier)
    (hs : sign.kind = .symbol .assign) {before : List Token} (h : Viable (IsPhrase 6) before) :
    Viable IsBinding (name :: sign :: before) := by
  refine h.behind [name, sign] ?_
  rintro ts ⟨d, rfl⟩
  exact ⟨⟨name, hn⟩, ⟨sign, hs⟩, d, rfl⟩

theorem viable_sign {name : Token} (hn : name.kind = .identifier) : Viable IsBinding [name] := by
  have hs := Terminal.sample_readable (.symbol .assign) "=" (by decide) rfl rfl
  have hv := viable_value hn (Terminal.sample (.symbol .assign) "=").property (viable_phrase 6)
  exact hv.shorten [name] (by simpa using hs)

theorem viable_name : Viable IsBinding [] := by
  have hs := Terminal.sample_readable .identifier "x" (by decide) rfl rfl
  have hv := viable_sign (Terminal.sample .identifier "x").property
  exact hv.shorten [] (by simpa using hs)

theorem binding_stuck {keyword : String} {ts : List Token} {e : Trouble}
    (hd : ∀ t ∈ ts, Readable t) (h : binding stop keyword ts = .error e) :
    Stuck (Viable IsBinding) (Refuses (binding · keyword)) stop ts e := by
  unfold binding at h
  rcases bind_eq_error h with h | ⟨⟨n, r₁, h₁⟩, hn, h⟩
  · obtain ⟨rfl, hf⟩ := take_stuck h
    refine .here viable_name fun t ht more stop' => ?_
    obtain ⟨e', he⟩ := hf t ht more stop'
    exact ⟨e', bind_error he _⟩
  obtain ⟨rfl, hnk⟩ := take_eq_ok ⟨h₁, hn⟩
  rcases bind_eq_error h with h | ⟨⟨sign, r₂, h₂⟩, hs, h⟩
  · obtain ⟨rfl, hf⟩ := take_stuck h
    refine .past [n] (viable_sign hnk) fun t ht more stop' => ?_
    obtain ⟨_, hn'⟩ := reads_take stop' ("variable name after " ++ keyword) ⟨n, hnk⟩ (t :: more)
    obtain ⟨e', he⟩ : ∃ e', take stop' _ _ (t :: more) = .error e' := hf t ht more stop'
    refine ⟨e', ?_⟩
    show binding stop' keyword (n :: t :: more) = _
    simp only [binding, hn', bind, Except.bind]
    rw [he]
  obtain ⟨rfl, hsk⟩ := take_eq_ok ⟨h₂, hs⟩
  rcases bind_eq_error h with h | ⟨a, -, h⟩
  · refine (tier_stuck (fun t ht => hd t (by simp [ht])) h).within [n, sign]
      (fun before _ hv => viable_value hnk hsk hv) fun l _ hf stop' => ?_
    obtain ⟨_, hn'⟩ := reads_take stop' ("variable name after " ++ keyword) ⟨n, hnk⟩ (sign :: l)
    obtain ⟨_, hs'⟩ := reads_take stop' ("'=' after variable name '" ++ n.text ++ "'")
      ⟨sign, hsk⟩ l
    obtain ⟨e', he⟩ : ∃ e', expr stop' l = .error e' := hf stop'
    refine ⟨e', ?_⟩
    show binding stop' keyword (n :: sign :: l) = _
    simp only [binding, hn', hs', bind, Except.bind]
    rw [he]
  · cases h

/-! Blocks. The statements after an opening brace can go on with what closes their block. -/

def IsItems (ts : List Token) : Prop := ∃ d : Items, d.tokens = ts

def IsBlock (ts : List Token) : Prop :=
  ∃ (d : Items) (c : Terminal (.symbol .closeBrace)), d.tokens ++ [c.val] = ts

def IsBraced (ts : List Token) : Prop :=
  ∃ (o : Terminal (.symbol .openBrace)) (ts' : List Token), IsBlock ts' ∧ o.val :: ts' = ts

def IsHeaded (ts : List Token) : Prop :=
  ∃ (e : Expression) (ts' : List Token), IsBraced ts' ∧ e.tokens ++ ts' = ts

theorem closing_readable :
    ∀ t ∈ [(Terminal.sample (.symbol .closeBrace) "\x7d").val], Readable t := by
  simpa using Terminal.sample_readable (.symbol .closeBrace) "\x7d" (by decide) rfl rfl

theorem viable_closing {d : Items} : Viable IsBlock d.tokens :=
  .intro closing_readable ⟨d, _, rfl⟩

theorem viable_opening {o : Token} (ho : o.kind = .symbol .openBrace) {before : List Token}
    (h : Viable IsBlock before) : Viable IsBraced (o :: before) :=
  h.behind [o] fun ts ht => ⟨⟨o, ho⟩, ts, ht, rfl⟩

theorem viable_braced : Viable IsBraced [] := by
  have ho := Terminal.sample_readable (.symbol .openBrace) "\x7b" (by decide) rfl rfl
  have hb : Viable IsBlock [] := viable_closing (d := .nil)
  have hv := viable_opening (Terminal.sample (.symbol .openBrace) "\x7b").property hb
  exact hv.shorten [] (by simpa using ho)

theorem viable_header {before : List Token} (h : Viable (IsPhrase 6) before) :
    Viable IsHeaded before := by
  obtain ⟨more, hm, d, hd⟩ := h
  have hv : Viable IsHeaded (d.tokens ++ []) :=
    viable_braced.behind d.tokens fun ts ht => ⟨d, ts, ht, rfl⟩
  rw [List.append_nil, hd] at hv
  exact hv.shorten before hm

def BracedFails (wanted owner : String) (stop : Token) (ts : List Token) (e : Trouble) : Prop :=
  take stop (.symbol .openBrace) wanted ts = .error e ∨
  ∃ t r, Reads (take stop (.symbol .openBrace) wanted ts) t r ∧ items stop owner r = .error e

def HeadedFails (wanted owner : String) (stop : Token) (ts : List Token) (e : Trouble) : Prop :=
  expr stop ts = .error e ∨
  ∃ x r, Reads (expr stop ts) x r ∧ BracedFails wanted owner stop r e

/-- A part of the parser fails on some tokens, whatever closes them. -/
def Fails (f : Token → List Token → Trouble → Prop) (ts : List Token) : Prop :=
  ∀ stop, ∃ e, f stop ts e

/-- Where the parser is stuck in a block, up to where its first statement begins. -/
def BlockStuck (ts : List Token) : Prop :=
  ∀ (stop : Token) (owner : String) (e : Trouble), (∀ t ∈ ts, Readable t) →
    items stop owner ts = .error e →
    Stuck (Viable IsBlock) (fun l => Alike ts l ∧ Refuses (items · owner) l) stop ts e

theorem braced_stuck {wanted owner : String} {ts : List Token} {e : Trouble}
    (hd : ∀ t ∈ ts, Readable t)
    (block : ∀ ts' : List Token, ts'.length < ts.length → BlockStuck ts')
    (h : BracedFails wanted owner stop ts e) :
    Stuck (Viable IsBraced) (Fails (BracedFails wanted owner)) stop ts e := by
  rcases h with h | ⟨o, r, ho, h⟩
  · obtain ⟨rfl, hf⟩ := take_stuck h
    refine .here viable_braced fun t ht more stop' => ?_
    obtain ⟨e', he⟩ := hf t ht more stop'
    exact ⟨e', .inl he⟩
  · obtain ⟨rfl, hok⟩ := take_eq_ok ho
    refine (block r (by simp) stop owner e (fun t ht => hd t (by simp [ht])) h).within [o]
      (fun before _ hv => viable_opening hok hv) fun l _ hf stop' => ?_
    obtain ⟨e', he⟩ := hf.2 stop'
    exact ⟨e', .inr ⟨o, l, reads_take stop' wanted ⟨o, hok⟩ l, he⟩⟩

theorem headed_stuck {wanted owner : String} {ts : List Token} {e : Trouble}
    (hd : ∀ t ∈ ts, Readable t)
    (block : ∀ ts' : List Token, ts'.length < ts.length → BlockStuck ts')
    (h : HeadedFails wanted owner stop ts e) :
    Stuck (Viable IsHeaded) (Fails (HeadedFails wanted owner)) stop ts e := by
  rcases h with h | ⟨x, r, hx, h⟩
  · refine (tier_stuck hd h).first (fun _ hv => viable_header hv) fun l _ hf stop' => ?_
    obtain ⟨e', he⟩ := hf stop'
    exact ⟨e', .inl he⟩
  · have hl : r.length < ts.length := hx.1
    obtain ⟨d, rfl, rfl, hc⟩ := tier_derives hd hx
    have hdr : ∀ t ∈ d.tokens, Readable t := fun t ht => hd t (by simp [ht])
    refine (braced_stuck (fun t ht => hd t (by simp [ht])) (fun ts' h => block ts' (h.trans hl))
      h).within d.tokens (fun before _ hv => ?_) fun l hs hf stop' => ?_
    · exact hv.behind d.tokens fun ts ht => ⟨d, ts, ht, rfl⟩
    · obtain ⟨e', he⟩ := hf stop'
      exact ⟨e', .inr ⟨_, l, d.reads hdr (hc.congr hs), he⟩⟩

/-! Statements. -/

def IsStatement (ts : List Token) : Prop := ∃ d : Statement, d.tokens = ts

theorem loop_fails_iff (word : Terminal (.keyword .repeatWord)) {ts : List Token} {e : Trouble} :
    statement stop (word.val :: ts) = .error e ↔
      HeadedFails "'\x7b' after repeat count" "repeat count" stop ts e := by
  constructor
  · intro h
    unfold statement at h
    simp only [word.property] at h
    rcases bind_eq_error h with h | ⟨⟨x, r₁, h₁⟩, hx, h⟩
    · exact .inl h
    rcases bind_eq_error h with h | ⟨⟨o, r₂, h₂⟩, ho, h⟩
    · exact .inr ⟨x, r₁, ⟨h₁, hx⟩, .inl h⟩
    rcases bind_eq_error h with h | ⟨a, -, h⟩
    · exact .inr ⟨x, r₁, ⟨h₁, hx⟩, .inr ⟨o, r₂, ⟨h₂, ho⟩, h⟩⟩
    · cases h
  · unfold statement
    rintro (h | ⟨x, r₁, ⟨h₁, hx⟩, h | ⟨o, r₂, ⟨h₂, ho⟩, h⟩⟩)
    · simp only [word.property, h, bind, Except.bind]
    · simp only [word.property, hx, h, bind, Except.bind]
    · simp only [word.property, hx, ho, h, bind, Except.bind]

def ElseFails (stop : Token) (ts : List Token) (e : Trouble) : Prop :=
  ∃ x o yes r₁ r₂ r₃ r₄ h, Reads (expr stop ts) x r₁ ∧
    Reads (take stop (.symbol .openBrace) "'\x7b' after if condition" r₁) o r₂ ∧
    Reads (items stop "if condition" r₂) yes r₃ ∧ afterElse? r₃ = some ⟨r₄, h⟩ ∧
    BracedFails "'\x7b' after else" "else" stop r₄ e

theorem branch_fails_iff (word : Terminal (.keyword .ifWord)) {ts : List Token} {e : Trouble} :
    statement stop (word.val :: ts) = .error e ↔
      HeadedFails "'\x7b' after if condition" "if condition" stop ts e ∨ ElseFails stop ts e := by
  constructor
  · intro h
    unfold statement at h
    simp only [word.property] at h
    rcases bind_eq_error h with h | ⟨⟨x, r₁, h₁⟩, hx, h⟩
    · exact .inl (.inl h)
    rcases bind_eq_error h with h | ⟨⟨o, r₂, h₂⟩, ho, h⟩
    · exact .inl (.inr ⟨x, r₁, ⟨h₁, hx⟩, .inl h⟩)
    rcases bind_eq_error h with h | ⟨⟨yes, r₃, h₃⟩, hy, h⟩
    · exact .inl (.inr ⟨x, r₁, ⟨h₁, hx⟩, .inr ⟨o, r₂, ⟨h₂, ho⟩, h⟩⟩)
    dsimp only at h
    split at h
    · cases h
    · next r₄ h₄ hg =>
      refine .inr ⟨x, o, yes, r₁, r₂, r₃, r₄, h₄, ⟨h₁, hx⟩, ⟨h₂, ho⟩, ⟨h₃, hy⟩, hg, ?_⟩
      rcases bind_eq_error h with h | ⟨⟨o', r₅, h₅⟩, ho', h⟩
      · exact .inl h
      rcases bind_eq_error h with h | ⟨a, -, h⟩
      · exact .inr ⟨o', r₅, ⟨h₅, ho'⟩, h⟩
      · cases h
  · unfold statement
    rintro ((h | ⟨x, r₁, ⟨h₁, hx⟩, h | ⟨o, r₂, ⟨h₂, ho⟩, h⟩⟩) |
      ⟨x, o, yes, r₁, r₂, r₃, r₄, h₄, ⟨h₁, hx⟩, ⟨h₂, ho⟩, ⟨h₃, hy⟩, hg, h | ⟨o', r₅, ⟨h₅, ho'⟩, h⟩⟩)
    · simp only [word.property, h, bind, Except.bind]
    · simp only [word.property, hx, h, bind, Except.bind]
    · simp only [word.property, hx, ho, h, bind, Except.bind]
    · simp only [word.property, hx, ho, hy, hg, h, bind, Except.bind]
    · simp only [word.property, hx, ho, hy, hg, ho', h, bind, Except.bind]

theorem loop_stuck (word : Terminal (.keyword .repeatWord)) {ts : List Token} {e : Trouble}
    (hd : ∀ t ∈ ts, Readable t)
    (block : ∀ ts' : List Token, ts'.length < ts.length → BlockStuck ts')
    (h : statement stop (word.val :: ts) = .error e) :
    Stuck (Viable IsStatement) (Refuses statement) stop (word.val :: ts) e := by
  refine (headed_stuck hd block ((loop_fails_iff word).mp h)).within [word.val]
    (fun before _ hv => ?_) fun l _ hf stop' => ?_
  · refine hv.behind [word.val] ?_
    rintro ts ⟨count, _, ⟨o, _, ⟨d, c, rfl⟩, rfl⟩, rfl⟩
    exact ⟨.loop word count o d c, rfl⟩
  · obtain ⟨e', he⟩ := hf stop'
    exact ⟨e', (loop_fails_iff word).mpr he⟩

theorem else_stuck (word : Terminal (.keyword .ifWord)) {ts : List Token} {e : Trouble}
    (hd : ∀ t ∈ ts, Readable t)
    (block : ∀ ts' : List Token, ts'.length < ts.length → BlockStuck ts')
    (h : ElseFails stop ts e) :
    Stuck (Viable IsStatement) (Refuses statement) stop (word.val :: ts) e := by
  obtain ⟨x, o, yes, r₁, r₂, r₃, r₄, h₄, hx, ho, hy, hg, h⟩ := h
  have hl : r₄.length < ts.length := by
    obtain ⟨h₁, -⟩ := hx
    obtain ⟨h₂, -⟩ := ho
    obtain ⟨h₃, -⟩ := hy
    omega
  obtain ⟨condition, rfl, rfl, -⟩ := tier_derives hd hx
  obtain ⟨rfl, hok⟩ := take_eq_ok ho
  obtain ⟨dy, cy, rfl, rfl⟩ := block_derives _ _ _ _ _ (fun t ht => hd t (by simp [ht])) hy
  obtain ⟨gap, otherwise, rfl⟩ := exists_gap hg
  have hcr : ∀ t ∈ condition.tokens, Readable t := fun t ht => hd t (by simp [ht])
  have hyr : ∀ t ∈ dy.tokens, Readable t := fun t ht => hd t (by simp [ht])
  let head := word.val :: (condition.tokens ++ o :: (dy.tokens ++ cy.val ::
    (gap.map (·.val) ++ [otherwise.val])))
  have ht : word.val :: (condition.tokens ++ o :: (dy.tokens ++ cy.val ::
      (gap.map (·.val) ++ otherwise.val :: r₄))) = head ++ r₄ := by simp [head]
  rw [ht]
  refine (braced_stuck (fun t ht => hd t (by simp [ht])) (fun ts' h => block ts' (h.trans hl))
    h).within head (fun before _ hv => ?_) fun l _ hf stop' => ?_
  · refine hv.behind head ?_
    rintro ts ⟨o', _, ⟨dn, cn, rfl⟩, rfl⟩
    exact ⟨.choice word condition ⟨o, hok⟩ dy cy gap otherwise o' dn cn,
      by simp [Statement.tokens, head]⟩
  · obtain ⟨e', he⟩ := hf stop'
    obtain ⟨hg', hga⟩ := afterElse?_gap gap otherwise l
    refine ⟨e', ?_⟩
    have hs : head ++ l = word.val :: (condition.tokens ++ o :: (dy.tokens ++ cy.val ::
      (gap.map (·.val) ++ otherwise.val :: l))) := by simp [head]
    rw [hs]
    exact (branch_fails_iff word).mpr (.inr ⟨_, o, _, _, _, _, l, hg',
      condition.reads hcr (clear_openBrace ⟨o, hok⟩ _ 6), reads_take stop' _ ⟨o, hok⟩ _,
      dy.reads stop' hyr _ cy _, hga, he⟩)

theorem branch_stuck (word : Terminal (.keyword .ifWord)) {ts : List Token} {e : Trouble}
    (hd : ∀ t ∈ ts, Readable t)
    (block : ∀ ts' : List Token, ts'.length < ts.length → BlockStuck ts')
    (h : statement stop (word.val :: ts) = .error e) :
    Stuck (Viable IsStatement) (Refuses statement) stop (word.val :: ts) e := by
  rcases (branch_fails_iff word).mp h with h | h
  · refine (headed_stuck hd block h).within [word.val] (fun before _ hv => ?_)
      fun l _ hf stop' => ?_
    · refine hv.behind [word.val] ?_
      rintro ts ⟨condition, _, ⟨o, _, ⟨d, c, rfl⟩, rfl⟩, rfl⟩
      exact ⟨.branch word condition o d c, rfl⟩
    · obtain ⟨e', he⟩ := hf stop'
      exact ⟨e', (branch_fails_iff word).mpr (.inl he)⟩
  · exact else_stuck word hd block h

theorem evaluate_fails {t : Token} (hk : sortOf t.kind = 5) {ts : List Token} {e : Trouble}
    (h : expr stop (t :: ts) = .error e) : statement stop (t :: ts) = .error e := by
  unfold statement
  split
  case h_1 hw | h_2 hw | h_3 hw | h_4 hw =>
    rw [hw] at hk
    cases hk
  case h_5 k _ _ _ _ hw =>
    have hn : ¬k.isCommand = true := by
      intro hc
      rw [hw, sortOf_of_isCommand hc] at hk
      cases hk
    rw [if_neg hn]
    exact bind_error h _
  case h_6 => exact bind_error h _

theorem evaluate_stuck {t : Token} (hk : sortOf t.kind = 5) {ts : List Token} {e : Trouble}
    (hd : ∀ t' ∈ t :: ts, Readable t') (h : expr stop (t :: ts) = .error e) :
    Stuck (Viable IsStatement) (Refuses statement) stop (t :: ts) e := by
  refine (tier_stuck hd h).first (fun _ hv => ?_) fun l hl hf stop' => ?_
  · refine hv.imp ?_
    rintro ts ⟨d, rfl⟩
    exact ⟨.evaluate d, rfl⟩
  · obtain ⟨e', he⟩ := hf stop'
    cases l with
    | nil => cases hl
    | cons t' l =>
      obtain rfl : t' = t := by simpa [SameHead] using hl
      exact ⟨e', evaluate_fails hk he⟩

theorem command_fails {word : Token} {k : Keyword} (hk : word.kind = .keyword k)
    (hi : k.isCommand = true) {ts : List Token} {e : Trouble}
    (h : command stop word.loc k ts = .error e) : statement stop (word :: ts) = .error e := by
  unfold statement
  split
  case h_5 k' _ _ _ _ hw =>
    rw [hk] at hw
    cases hw
    rw [if_pos hi]
    exact bind_error h _
  case h_6 _ _ _ _ hw => exact absurd hk (hw k)
  all_goals
    next hw =>
      rw [hk] at hw
      cases hw
      cases hi

/-- Where a statement gives a variable a value, it is stuck where the binding is. -/
theorem bound_stuck {keyword : String} {t : Token} {ts : List Token} {e : Trouble}
    (hd : ∀ t ∈ ts, Readable t) (hb : binding stop keyword ts = .error e)
    (hs : ∀ b, IsBinding b → IsStatement (t :: b))
    (hf : ∀ stop l e, binding stop keyword l = .error e → statement stop (t :: l) = .error e) :
    Stuck (Viable IsStatement) (Refuses statement) stop (t :: ts) e := by
  refine (binding_stuck hd hb).within [t] (fun before _ hv => hv.behind [t] hs)
    fun l _ hl stop' => ?_
  obtain ⟨e', he⟩ := hl stop'
  exact ⟨e', hf stop' l e' he⟩

theorem statement_stuck {t : Token} {ts : List Token} {e : Trouble}
    (hd : ∀ t' ∈ t :: ts, Readable t')
    (block : ∀ ts' : List Token, ts'.length < ts.length → BlockStuck ts')
    (h : statement stop (t :: ts) = .error e) :
    Stuck (Viable IsStatement) (Refuses statement) stop (t :: ts) e := by
  have whole := h
  have hts : ∀ t ∈ ts, Readable t := fun t ht => hd t (by simp [ht])
  rw [statement] at h
  split at h
  case h_1 hk =>
    rcases bind_eq_error h with h | ⟨a, -, h⟩
    · refine bound_stuck hts h ?_ fun stop' l e' he => ?_
      · rintro _ ⟨n, sign, d, rfl⟩
        exact ⟨.declare ⟨t, hk⟩ n sign d, rfl⟩
      · rw [statement, hk]
        exact bind_error he _
    · cases h
  case h_2 hk =>
    rcases bind_eq_error h with h | ⟨a, -, h⟩
    · refine bound_stuck hts h ?_ fun stop' l e' he => ?_
      · rintro _ ⟨n, sign, d, rfl⟩
        exact ⟨.assign ⟨t, hk⟩ n sign d, rfl⟩
      · rw [statement, hk]
        exact bind_error he _
    · cases h
  case h_3 hk => exact branch_stuck ⟨t, hk⟩ hts block whole
  case h_4 hk => exact loop_stuck ⟨t, hk⟩ hts block whole
  case h_5 k _ _ _ _ hk =>
    split at h
    · next hi =>
      rcases bind_eq_error h with h | ⟨a, -, h⟩
      · refine (command_stuck hi hts h).within [t] (fun before _ hv => ?_) fun l _ hf stop' => ?_
        · refine hv.behind [t] ?_
          rintro ts ⟨a, c, rfl, hc⟩
          exact ⟨.command t k a c hk hc, rfl⟩
        · obtain ⟨e', he⟩ := hf stop'
          exact ⟨e', command_fails hk hi he⟩
      · cases h
    · next hi =>
      rcases bind_eq_error h with h | ⟨a, -, h⟩
      · refine evaluate_stuck ?_ hd h
        rw [hk]
        cases k <;> first | rfl | simp_all [Keyword.isCommand]
      · cases h
  case h_6 =>
    rcases bind_eq_error h with h | ⟨a, -, h⟩
    · refine evaluate_stuck ?_ hd h
      unfold sortOf
      split <;> simp_all
    · cases h

/-! Statements one after the other, in a block or in a program. -/

/-- A language of statements to which one more can be added in front. -/
structure Grows (L : List Token → Prop) : Prop where
  last : ∀ s : Statement, Viable L s.tokens
  line : ∀ (s : Statement) (before : List Token), Viable L before →
    (∀ t ∈ before.head?, t.kind = .newline ∨ t.kind = .symbol .closeBrace) →
    Viable L (s.tokens ++ before)

theorem grows_items : Grows IsItems where
  last s := .whole ⟨.last s, rfl⟩
  line s before := by
    rintro ⟨more, hm, d, hd⟩ hb
    cases before with
    | nil =>
      rw [List.append_nil]
      exact .whole ⟨.last s, rfl⟩
    | cons t before =>
      have hh : ∀ t ∈ d.tokens.head?, t.kind = .newline ∨ t.kind = .symbol .closeBrace := by
        rw [hd]
        exact hb
      obtain ⟨d', hd', -⟩ := Items.exists_cons s d hh
      exact .intro hm ⟨d', by rw [hd', hd, List.append_assoc]⟩

theorem grows_block : Grows IsBlock where
  last s := viable_closing (d := .last s)
  line s before := by
    rintro ⟨more, hm, d, c, hd⟩ hb
    cases before with
    | nil =>
      rw [List.append_nil]
      exact viable_closing (d := .last s)
    | cons t before =>
      have hh : ∀ t ∈ d.tokens.head?, t.kind = .newline ∨ t.kind = .symbol .closeBrace :=
        head_of_append hd.symm hb
      obtain ⟨d', hd', -⟩ := Items.exists_cons s d hh
      exact .intro hm ⟨d', c, by rw [hd', List.append_assoc, hd, List.append_assoc]⟩

def ItemFails (inBlock : Bool) (next : Token → List Token → Trouble → Prop) (stop : Token)
    (ts : List Token) (e : Trouble) : Prop :=
  statement stop ts = .error e ∨ ∃ s r, Reads (statement stop ts) s r ∧
    (endsStatement inBlock stop r = .error e ∨
      endsStatement inBlock stop r = .ok () ∧ next stop r e)

theorem endsStatement_congr {inBlock : Bool} {r r' : List Token} (h : SameHead r r')
    (he : endsStatement inBlock stop r = .ok ()) (stop' : Token) :
    endsStatement inBlock stop' r' = .ok () := by
  cases r' with
  | nil => rfl
  | cons t' r' =>
    cases r with
    | nil => cases h
    | cons t r =>
      obtain rfl : t' = t := by simpa [SameHead] using h
      simp only [endsStatement] at he ⊢
      split at he
      · next hk => rw [if_pos hk]
      · cases he

theorem endsStatement_eq_error {inBlock : Bool} {r : List Token} {e : Trouble}
    (h : endsStatement inBlock stop r = .error e) :
    ∃ t r', r = t :: r' ∧ t.kind ≠ .newline ∧ e = reject "newline after statement" stop r ∧
      ∀ stop' more, endsStatement inBlock stop' (t :: more) =
        .error (reject "newline after statement" stop' (t :: more)) := by
  cases r with
  | nil => cases h
  | cons t r =>
    simp only [endsStatement] at h
    split at h
    · cases h
    · next hk =>
      cases h
      refine ⟨t, r, rfl, fun hn => hk (by simp [hn]), rfl, fun stop' more => ?_⟩
      exact if_neg hk

theorem item_stuck {L : List Token → Prop} (hg : Grows L) {inBlock : Bool}
    (next : Token → List Token → Trouble → Prop) {t : Token} {ts : List Token} {e : Trouble}
    (hd : ∀ t' ∈ t :: ts, Readable t')
    (block : ∀ ts' : List Token, ts'.length < ts.length → BlockStuck ts')
    (more : ∀ r : List Token, r.length < (t :: ts).length → (∀ t ∈ r, Readable t) →
      next stop r e → Stuck (Viable L) (fun l => Alike r l ∧ Fails next l) stop r e)
    (h : ItemFails inBlock next stop (t :: ts) e) :
    Stuck (Viable L) (fun l => SameHead (t :: ts) l ∧ Fails (ItemFails inBlock next) l) stop
      (t :: ts) e := by
  rcases h with h | ⟨s, r, hs, h⟩
  · refine (statement_stuck hd block h).first (fun before hv => ?_) fun l hl hf => ⟨hl, ?_⟩
    · obtain ⟨more, hm, d, hd⟩ := hv
      exact .shorten before (by rw [← hd]; exact hg.last d) hm
    · intro stop'
      obtain ⟨e', he⟩ := hf stop'
      exact ⟨e', .inl he⟩
  have hl := hs.1
  obtain ⟨d, hdt, rfl⟩ := statement_derives hd (fun ts' _ => block_derives stop ts') hs
  obtain ⟨pre, hp, tk⟩ := statement_takes hd hs
  obtain rfl : pre = d.tokens := List.append_cancel_right (hp.symm.trans hdt)
  rw [hdt]
  rcases h with h | ⟨he, h⟩
  · obtain ⟨t', r', rfl, hn', rfl, hr⟩ := endsStatement_eq_error h
    refine .past d.tokens (hg.last d) fun t'' ht more => ⟨?_, fun stop' => ?_⟩
    · exact (SameHead.of_mem ht more).append d.tokens
    · obtain rfl : t' = t'' := by simpa using ht
      exact ⟨_, .inr ⟨_, t' :: more, tk stop' _ (SameHead.alike hn' rfl), .inl (hr stop' more)⟩⟩
  · have hr : ∀ t ∈ r, Readable t := fun t ht => hd t (by rw [hdt]; simp [ht])
    refine (more r hl hr h).within d.tokens (fun before hp hv => ?_) fun l hh hf => ⟨?_, ?_⟩
    · refine hg.line d before hv ?_
      obtain ⟨after, rfl⟩ := hp
      exact head_of_append rfl (endsStatement_eq_ok he)
    · exact hh.append d.tokens
    · intro stop'
      obtain ⟨e', hf'⟩ := hf.2 stop'
      exact ⟨e', .inr ⟨_, l, tk stop' l hf.1, .inr ⟨endsStatement_congr hh he stop', hf'⟩⟩⟩

/-- A part of the parser that reads a statement and goes on with others fails where one of them
does. -/
theorem item_fails_iff {α : List Token → Type} {γ : Type} {inBlock : Bool} {ts : List Token}
    {e : Trouble} (others : Token → (r : List Token) → Except Trouble (α r))
    (join : (s : Stmt × Rest ts) → α s.2.val → γ) :
    (do let s ← statement stop ts
        endsStatement inBlock stop s.2.val
        let rest ← others stop s.2.val
        return join s rest) = .error e ↔
      ItemFails inBlock (fun stop r e => others stop r = .error e) stop ts e := by
  constructor
  · intro h
    rcases bind_eq_error h with h | ⟨⟨s, r, hl⟩, hs, h⟩
    · exact .inl h
    refine .inr ⟨s, r, ⟨hl, hs⟩, ?_⟩
    rcases bind_eq_error h with h | ⟨u, hu, h⟩
    · exact .inl h
    rcases bind_eq_error h with h | ⟨a, -, h⟩
    · exact .inr ⟨hu, h⟩
    · cases h
  · rintro (h | ⟨s, r, ⟨hl, hs⟩, h | ⟨hu, h⟩⟩)
    · simp only [h, bind, Except.bind]
    · simp only [hs, h, bind, Except.bind]
    · simp only [hs, hu, h, bind, Except.bind]

theorem items_fails_iff {owner : String} {t : Token} (hn : t.kind ≠ .newline)
    (hc : t.kind ≠ .symbol .closeBrace) {ts : List Token} {e : Trouble} :
    items stop owner (t :: ts) = .error e ↔
      ItemFails true (fun stop r e => items stop owner r = .error e) stop (t :: ts) e := by
  rw [items, if_neg hn, if_neg hc]
  exact item_fails_iff (fun stop r => items stop owner r) _

theorem statements_fails_iff {t : Token} (hn : t.kind ≠ .newline) {ts : List Token} {e : Trouble} :
    statements stop (t :: ts) = .error e ↔
      ItemFails false (fun stop r e => statements stop r = .error e) stop (t :: ts) e := by
  rw [statements, if_neg hn]
  exact item_fails_iff statements _

theorem block_stuck (ts : List Token) : BlockStuck ts := by
  induction hl : ts.length using Nat.strong_induction_on generalizing ts with
  | _ n ih =>
  have block : ∀ ts' : List Token, ts'.length < n → BlockStuck ts' :=
    fun ts' h => ih ts'.length h ts' rfl
  intro stop owner e hd h
  cases ts with
  | nil =>
    rw [items] at h
    cases h
    exact .here (viable_closing (d := .nil)) (by simp)
  | cons t ts =>
    have hts : ∀ t ∈ ts, Readable t := fun t ht => hd t (by simp [ht])
    have hn : ts.length < n := by simp [← hl]
    by_cases hk : t.kind = .newline
    · rw [items, if_pos hk] at h
      rcases bind_eq_error h with h | ⟨a, -, h⟩
      · refine (block ts hn stop owner e hts h).within [t] (fun before _ hv => ?_)
          fun l _ hf => ⟨hf.1.newline hk, fun stop' => ?_⟩
        · refine hv.behind [t] ?_
          rintro ts ⟨d, c, rfl⟩
          exact ⟨.newline ⟨t, hk⟩ d, c, rfl⟩
        · obtain ⟨e', he⟩ := hf.2 stop'
          refine ⟨e', ?_⟩
          show items stop' owner (t :: l) = _
          rw [items, if_pos hk]
          exact bind_error he _
      · cases h
    by_cases hc : t.kind = .symbol .closeBrace
    · rw [items, if_neg hk, if_pos hc] at h
      cases h
    have hi := item_stuck grows_block (fun stop r e => items stop owner r = .error e) hd
      (fun ts' h => block ts' (h.trans hn))
      (fun r hr hd' h => block r (by rw [← hl]; exact hr) stop owner e hd' h)
      ((items_fails_iff hk hc).mp h)
    refine hi.first (fun _ hv => hv) fun l hh hf => ⟨hh.alike hk, fun stop' => ?_⟩
    cases l with
    | nil => cases hh
    | cons t' l =>
      obtain rfl : t' = t := by simpa [SameHead] using hh
      obtain ⟨e', he⟩ := hf.2 stop'
      exact ⟨e', (items_fails_iff hk hc).mpr he⟩

/-- Where the parser is stuck in a program. -/
theorem statements_stuck {ts : List Token} {e : Trouble} (hd : ∀ t ∈ ts, Readable t)
    (h : statements stop ts = .error e) :
    Stuck (Viable IsItems)
      (fun l => Alike ts l ∧ Fails (fun stop r e => statements stop r = .error e) l) stop ts e := by
  cases ts with
  | nil =>
    rw [statements] at h
    cases h
  | cons t ts =>
    by_cases hk : t.kind = .newline
    · rw [statements, if_pos hk] at h
      refine (statements_stuck (fun t ht => hd t (by simp [ht])) h).within [t]
        (fun before _ hv => ?_) fun l _ hf => ⟨hf.1.newline hk, fun stop' => ?_⟩
      · refine hv.behind [t] ?_
        rintro ts ⟨d, rfl⟩
        exact ⟨.newline ⟨t, hk⟩ d, rfl⟩
      · obtain ⟨e', he⟩ := hf.2 stop'
        refine ⟨e', ?_⟩
        show statements stop' (t :: l) = _
        rw [statements, if_pos hk]
        exact he
    have hi := item_stuck grows_items (fun stop r e => statements stop r = .error e) hd
      (fun ts' _ => block_stuck ts') (fun r hr hd' h => statements_stuck hd' h)
      ((statements_fails_iff hk).mp h)
    refine hi.first (fun _ hv => hv) fun l hh hf => ⟨hh.alike hk, fun stop' => ?_⟩
    cases l with
    | nil => cases hh
    | cons t' l =>
      obtain rfl : t' = t := by simpa [SameHead] using hh
      obtain ⟨e', he⟩ := hf.2 stop'
      exact ⟨e', (statements_fails_iff hk).mpr he⟩
termination_by ts.length

/-! Programs. -/

theorem split_past {ts : List Token} (h : ∀ t ∈ ts, t.kind ≠ .endOfInput) (more : List Token) :
    ∃ more' stop, split (ts ++ more) = (ts ++ more', stop) := by
  have hb : ∀ t ∈ ts, decide (t.kind ≠ .endOfInput) = true := by simpa using h
  unfold split
  rw [List.takeWhile_append_of_pos hb]
  dsimp only
  split <;> exact ⟨_, _, rfl⟩

theorem Items.accepted_before (d : Items) (stop : Terminal .endOfInput)
    (hd : ∀ t ∈ d.tokens, Readable t) :
    Program.ofTokens (d.tokens ++ [stop.val]) = .ok (Program.ofStatements d.trees) := by
  have he : ∀ t ∈ d.tokens, t.kind ≠ .endOfInput := fun t ht => (d.inner t ht).2
  exact (accepts_iff stop hd he _).mpr ⟨⟨d, stop⟩, rfl, rfl⟩

theorem tokenize_readable (source : String) : ∀ t ∈ tokenize source, Readable t := by
  obtain ⟨body, stop, ht, hr, -⟩ := exists_readable source
  rw [ht]
  refine readable_append hr fun t hm => ?_
  obtain rfl : t = stop.val := by simpa using hm
  have hk := stop.property
  exact readable_of_kind (by rw [hk]; decide) (by rw [hk]; rfl) (by rw [hk]; rfl)

theorem ofSource_statements {source : String} {body : List Token} {stop : Terminal .endOfInput}
    (ht : tokenize source = body ++ [stop.val]) (he : ∀ t ∈ body, t.kind ≠ .endOfInput) :
    Program.ofSource source = (statements stop.val body).map Program.ofStatements := by
  rw [Program.ofSource, ht, Program.ofTokens, split_append he stop []]

/-- A text that is no program is rejected with an error of the script. -/
theorem ofSource_error {source : String} {e : Trouble} (h : Program.ofSource source = .error e) :
    ∃ err : ScriptError, e = .error err := by
  obtain ⟨body, stop, ht, hr, he⟩ := exists_readable source
  rw [ofSource_statements ht he] at h
  cases hp : statements stop.val body with
  | ok ss =>
    rw [hp] at h
    cases h
  | error e' =>
    rw [hp] at h
    cases h
    obtain ⟨_, rest, wanted, -, rfl, -⟩ := statements_stuck hr hp
    exact ⟨_, rfl⟩

/-- A text is a program, or its first token that cannot go on is reported: what stands before it can
be continued to a program, and together with it no longer. -/
theorem parse_error_earliest (source : String) :
    (∀ t ∈ tokenize source, Readable t) ∧
    ((∃ p, Program.ofSource source = .ok p) ∨
      ∃ (before after : List Token) (t : Token) (wanted : String),
        tokenize source = before ++ t :: after ∧
        Program.ofSource source = .error (.error (.locatedAt (.unexpected wanted t) t.loc)) ∧
        (∃ (more : List Token) (stop : Terminal .endOfInput) (p : Program),
          (∀ t ∈ more, Readable t) ∧
          Program.ofTokens (before ++ (more ++ [stop.val])) = .ok p) ∧
        ∀ more p, Program.ofTokens (before ++ t :: more) ≠ .ok p) := by
  refine ⟨tokenize_readable source, ?_⟩
  obtain ⟨body, stop, ht, hr, he⟩ := exists_readable source
  have hs := ofSource_statements ht he
  cases hp : statements stop.val body with
  | ok ss => exact .inl ⟨.ofStatements ss, by rw [hs, hp]; rfl⟩
  | error e =>
    obtain ⟨before, rest, wanted, rfl, rfl, ⟨more, hm, d, hd⟩, hf⟩ := statements_stuck hr hp
    have hb : ∀ t ∈ before, Readable t := fun t ht => hr t (by simp [ht])
    have ha : Program.ofTokens (before ++ (more ++ [stop.val])) = .ok (.ofStatements d.trees) := by
      rw [← List.append_assoc, ← hd]
      exact d.accepted_before stop (by rw [hd]; exact readable_append hb hm)
    rw [hp] at hs
    refine .inr ?_
    cases rest with
    | nil =>
      refine ⟨before, [], stop.val, wanted, by simp [ht], hs, ⟨more, stop, _, hm, ha⟩, ?_⟩
      intro more p h
      rw [List.append_nil] at he hp
      rw [Program.ofTokens, split_append he stop more] at h
      dsimp only at h
      rw [hp] at h
      cases h
    | cons t rest =>
      refine ⟨before, rest ++ [stop.val], t, wanted, by simp [ht], hs, ⟨more, stop, _, hm, ha⟩, ?_⟩
      intro more p h
      have hbe : ∀ t' ∈ before ++ [t], t'.kind ≠ .endOfInput :=
        fun t' ht' => he t' (by simp at ht' ⊢; tauto)
      obtain ⟨more', stop', hsp⟩ := split_past hbe more
      obtain ⟨e', he'⟩ := (hf t rfl more').2 stop'
      rw [List.append_assoc, List.singleton_append, List.append_assoc, List.singleton_append] at hsp
      rw [Program.ofTokens, hsp] at h
      dsimp only at h
      rw [he'] at h
      cases h

end AgentScript.Grammar

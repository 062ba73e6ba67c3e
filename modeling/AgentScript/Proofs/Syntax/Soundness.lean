import AgentScript.Proofs.Syntax.Statement

/-! What the parser reads as statements can be derived. -/
namespace AgentScript.Grammar

open AgentScript.Parser

variable {stop : Token}

theorem binding_derives {keyword name : String} {e : Expr} {ts r : List Token}
    (hd : ∀ t ∈ ts, Readable t) (h : Reads (binding stop keyword ts) (name, e) r) :
    ∃ (n : Terminal .identifier) (sign : Terminal (.symbol .assign)) (d : Expression),
      ts = n.val :: sign.val :: (d.tokens ++ r) ∧ n.val.text = name ∧ d.tree = e := by
  obtain ⟨hr, h⟩ := h
  unfold binding at h
  obtain ⟨⟨n, r₁, h₁⟩, hn, h⟩ := bind_eq_ok h
  obtain ⟨⟨sign, r₂, h₂⟩, hs, h⟩ := bind_eq_ok h
  obtain ⟨⟨e', r₃, h₃⟩, hp, h⟩ := bind_eq_ok h
  cases h
  obtain ⟨rfl, hnk⟩ := take_eq_ok ⟨h₁, hn⟩
  obtain ⟨rfl, hsk⟩ := take_eq_ok ⟨h₂, hs⟩
  obtain ⟨d, rfl, rfl, -⟩ := tier_derives (fun t ht => hd t (by simp [ht])) ⟨h₃, hp⟩
  exact ⟨⟨n, hnk⟩, ⟨sign, hsk⟩, d, rfl, rfl, rfl⟩

theorem endsStatement_eq_ok {inBlock : Bool} {ts : List Token} {u : Unit}
    (h : endsStatement inBlock stop ts = .ok u) :
    ∀ t ∈ ts.head?, t.kind = .newline ∨ t.kind = .symbol .closeBrace := by
  intro t ht
  unfold endsStatement at h
  split at h
  · cases ht
  · next t' r =>
    obtain rfl : t' = t := by simpa using ht
    split at h
    · next hk =>
      simp only [Bool.or_eq_true, Bool.and_eq_true, decide_eq_true_eq] at hk
      rcases hk with hk | hk
      · exact .inl hk
      · exact .inr hk.2
    · cases h

/-- A statement before the others, where it may end. -/
theorem Items.exists_cons (s : Statement) (d : Items)
    (h : ∀ t ∈ d.tokens.head?, t.kind = .newline ∨ t.kind = .symbol .closeBrace) :
    ∃ d' : Items, d'.tokens = s.tokens ++ d.tokens ∧ d'.trees = s.tree :: d.trees := by
  have hs : ∀ (s : Statement) (ts : List Token),
      (∀ t ∈ (s.tokens ++ ts).head?, t.kind = .newline ∨ t.kind = .symbol .closeBrace) →
      False := by
    intro s ts h
    obtain ⟨t, ts', ht, -, hn, hc, -⟩ := s.exists_head
    rcases h t (by rw [ht]; rfl) with hk | hk
    · exact hn hk
    · exact hc hk
  cases d with
  | nil => exact ⟨.last s, by simp [Items.tokens], rfl⟩
  | newline t rest => exact ⟨.line s t rest, rfl, rfl⟩
  | last s' => exact (hs s' [] (by simpa [Items.tokens] using h)).elim
  | line s' t rest => exact (hs s' (t.val :: rest.tokens) h).elim

theorem head_of_append {P : Token → Prop} {ts ts' r : List Token} (h : ts = ts' ++ r)
    (hts : ∀ t ∈ ts.head?, P t) : ∀ t ∈ ts'.head?, P t := by
  intro t ht
  exact hts t (by rw [h, List.head?_append, ht]; rfl)

/-- What the parser reads as a block has a derivation, and a brace closes it. -/
def BlockDerives (stop : Token) (ts : List Token) : Prop :=
  ∀ (owner : String) (ss : List Stmt) (r : List Token), (∀ t ∈ ts, Readable t) →
    Reads (items stop owner ts) ss r →
    ∃ (d : Items) (c : Terminal (.symbol .closeBrace)),
      ts = d.tokens ++ c.val :: r ∧ d.trees = ss

theorem evaluate_derives {t : Token} {ts r : List Token} {e : Expr}
    (hd : ∀ t' ∈ t :: ts, Readable t') (h : Reads (expr stop (t :: ts)) e r) :
    ∃ d : Statement, t :: ts = d.tokens ++ r ∧ d.tree = .evaluate t.loc e := by
  obtain ⟨d, ht, rfl, -⟩ := tier_derives hd h
  obtain ⟨t', ts', hh, -⟩ := d.exists_head
  have htt : t = t' := by
    rw [hh] at ht
    exact (List.cons.inj ht).1
  exact ⟨.evaluate d, ht, by rw [Statement.tree, hh, htt]; rfl⟩

theorem branch_derives (word : Terminal (.keyword .ifWord)) {ts r : List Token} {s : Stmt}
    (hd : ∀ t ∈ ts, Readable t)
    (block : ∀ ts' : List Token, ts'.length < ts.length → BlockDerives stop ts')
    (h : Reads (statement stop (word.val :: ts)) s r) :
    ∃ d : Statement, word.val :: ts = d.tokens ++ r ∧ d.tree = s := by
  obtain ⟨hr, h⟩ := h
  unfold statement at h
  simp only [word.property] at h
  obtain ⟨⟨e, r₁, h₁⟩, he, h⟩ := bind_eq_ok h
  obtain ⟨⟨o, r₂, h₂⟩, ho, h⟩ := bind_eq_ok h
  obtain ⟨⟨yes, r₃, h₃⟩, hy, h⟩ := bind_eq_ok h
  have hb := block r₂ (h₂.trans h₁)
  obtain ⟨condition, rfl, rfl, -⟩ := tier_derives hd ⟨h₁, he⟩
  obtain ⟨rfl, hok⟩ := take_eq_ok ⟨h₂, ho⟩
  obtain ⟨dy, cy, rfl, rfl⟩ := hb _ _ _ (fun t ht => hd t (by simp [ht])) ⟨h₃, hy⟩
  dsimp only at h
  split at h
  · cases h
    exact ⟨.branch word condition ⟨o, hok⟩ dy cy, by simp [Statement.tokens], rfl⟩
  · next r₄ h₄ hg =>
    obtain ⟨⟨o', r₅, h₅⟩, ho', h⟩ := bind_eq_ok h
    obtain ⟨⟨no, r₆, h₆⟩, hn, h⟩ := bind_eq_ok h
    have hb' := block r₅ (by simp at h₁ h₃ ⊢; omega)
    cases h
    obtain ⟨gap, otherwise, rfl⟩ := exists_gap hg
    obtain ⟨rfl, hok'⟩ := take_eq_ok ⟨h₅, ho'⟩
    obtain ⟨dn, cn, rfl, rfl⟩ := hb' _ _ _ (fun t ht => hd t (by simp [ht])) ⟨h₆, hn⟩
    exact ⟨.choice word condition ⟨o, hok⟩ dy cy gap otherwise ⟨o', hok'⟩ dn cn,
      by simp [Statement.tokens], rfl⟩

theorem loop_derives (word : Terminal (.keyword .repeatWord)) {ts r : List Token} {s : Stmt}
    (hd : ∀ t ∈ ts, Readable t)
    (block : ∀ ts' : List Token, ts'.length < ts.length → BlockDerives stop ts')
    (h : Reads (statement stop (word.val :: ts)) s r) :
    ∃ d : Statement, word.val :: ts = d.tokens ++ r ∧ d.tree = s := by
  obtain ⟨hr, h⟩ := h
  unfold statement at h
  simp only [word.property] at h
  obtain ⟨⟨e, r₁, h₁⟩, he, h⟩ := bind_eq_ok h
  obtain ⟨⟨o, r₂, h₂⟩, ho, h⟩ := bind_eq_ok h
  obtain ⟨⟨body, r₃, h₃⟩, hb, h⟩ := bind_eq_ok h
  have hblock := block r₂ (h₂.trans h₁)
  cases h
  obtain ⟨count, rfl, rfl, -⟩ := tier_derives hd ⟨h₁, he⟩
  obtain ⟨rfl, hok⟩ := take_eq_ok ⟨h₂, ho⟩
  obtain ⟨d, c, rfl, rfl⟩ := hblock _ _ _ (fun t ht => hd t (by simp [ht])) ⟨h₃, hb⟩
  exact ⟨.loop word count ⟨o, hok⟩ d c, by simp [Statement.tokens], rfl⟩

theorem statement_derives {ts r : List Token} {s : Stmt} (hd : ∀ t ∈ ts, Readable t)
    (block : ∀ ts' : List Token, ts'.length < ts.length → BlockDerives stop ts')
    (h : Reads (statement stop ts) s r) : ∃ d : Statement, ts = d.tokens ++ r ∧ d.tree = s := by
  have whole := h
  obtain ⟨hr, h⟩ := h
  cases ts with
  | nil =>
    rw [statement] at h
    cases h
  | cons t ts =>
    have hts : ∀ t ∈ ts, Readable t := fun t ht => hd t (by simp [ht])
    have hblock : ∀ ts' : List Token, ts'.length < ts.length → BlockDerives stop ts' :=
      fun ts' hl => block ts' (by simp; omega)
    rw [statement] at h
    split at h
    case h_1 hk =>
      obtain ⟨⟨⟨name, e⟩, r₁, h₁⟩, hb, h⟩ := bind_eq_ok h
      cases h
      obtain ⟨n, sign, d, rfl, rfl, rfl⟩ := binding_derives hts ⟨h₁, hb⟩
      exact ⟨.declare ⟨t, hk⟩ n sign d, rfl, rfl⟩
    case h_2 hk =>
      obtain ⟨⟨⟨name, e⟩, r₁, h₁⟩, hb, h⟩ := bind_eq_ok h
      cases h
      obtain ⟨n, sign, d, rfl, rfl, rfl⟩ := binding_derives hts ⟨h₁, hb⟩
      exact ⟨.assign ⟨t, hk⟩ n sign d, rfl, rfl⟩
    case h_3 hk => exact branch_derives ⟨t, hk⟩ hts hblock whole
    case h_4 hk => exact loop_derives ⟨t, hk⟩ hts hblock whole
    case h_5 k _ _ _ _ hk =>
      split at h
      · obtain ⟨⟨c, r₁, h₁⟩, hc, h⟩ := bind_eq_ok h
        cases h
        obtain ⟨a, rfl, ha⟩ := command_derives hts ⟨h₁, hc⟩
        exact ⟨.command t k a c hk ha, rfl, rfl⟩
      · obtain ⟨⟨e, r₁, h₁⟩, he, h⟩ := bind_eq_ok h
        cases h
        exact evaluate_derives hd ⟨h₁, he⟩
    case h_6 =>
      obtain ⟨⟨e, r₁, h₁⟩, he, h⟩ := bind_eq_ok h
      cases h
      exact evaluate_derives hd ⟨h₁, he⟩

theorem block_derives (stop : Token) (ts : List Token) : BlockDerives stop ts := by
  induction hl : ts.length using Nat.strong_induction_on generalizing ts with
  | _ n ih =>
  have block : ∀ ts' : List Token, ts'.length < n → BlockDerives stop ts' :=
    fun ts' h => ih ts'.length h ts' rfl
  intro owner ss r hd h
  obtain ⟨hr, h⟩ := h
  cases ts with
  | nil =>
    rw [items] at h
    cases h
  | cons t ts =>
    have hts : ∀ t ∈ ts, Readable t := fun t ht => hd t (by simp [ht])
    have hn : ts.length < n := by simp [← hl]
    rw [items] at h
    split at h
    · next hk =>
      obtain ⟨⟨rest, r₁, h₁⟩, hp, h⟩ := bind_eq_ok h
      cases h
      obtain ⟨d, c, rfl, rfl⟩ := block ts hn _ _ _ hts ⟨h₁, hp⟩
      exact ⟨.newline ⟨t, hk⟩ d, c, rfl, rfl⟩
    · split at h
      · next hk =>
        cases h
        exact ⟨.nil, ⟨t, hk⟩, rfl, rfl⟩
      · obtain ⟨⟨s, r₁, h₁⟩, hp, h⟩ := bind_eq_ok h
        obtain ⟨u, hu, h⟩ := bind_eq_ok h
        obtain ⟨⟨rest, r₂, h₂⟩, hq, h⟩ := bind_eq_ok h
        cases h
        obtain ⟨ds, hs, rfl⟩ :=
          statement_derives hd (fun ts' h => block ts' (by rw [← hl]; exact h)) ⟨h₁, hp⟩
        have hd' : ∀ t ∈ r₁, Readable t := fun t ht => hd t (by rw [hs]; simp [ht])
        obtain ⟨d, c, hc, rfl⟩ := block r₁ (by rw [← hl]; exact h₁) _ _ _ hd' ⟨h₂, hq⟩
        obtain ⟨d', ht, hd⟩ :=
          Items.exists_cons ds d (head_of_append hc (endsStatement_eq_ok hu))
        exact ⟨d', c, by rw [ht, hs, hc, List.append_assoc], hd⟩

/-- What the parser reads as a program has a derivation. -/
theorem statements_derives {ts : List Token} {ss : List Stmt} (hd : ∀ t ∈ ts, Readable t)
    (h : statements stop ts = .ok ss) : ∃ d : Items, ts = d.tokens ∧ d.trees = ss := by
  cases ts with
  | nil =>
    rw [statements] at h
    cases h
    exact ⟨.nil, rfl, rfl⟩
  | cons t ts =>
    rw [statements] at h
    split at h
    · next hk =>
      obtain ⟨d, rfl, rfl⟩ := statements_derives (fun t ht => hd t (by simp [ht])) h
      exact ⟨.newline ⟨t, hk⟩ d, rfl, rfl⟩
    · obtain ⟨⟨s, r₁, h₁⟩, hp, h⟩ := bind_eq_ok h
      obtain ⟨u, hu, h⟩ := bind_eq_ok h
      obtain ⟨rest, hq, h⟩ := bind_eq_ok h
      cases h
      obtain ⟨ds, hs, rfl⟩ :=
        statement_derives hd (fun ts' _ => block_derives stop ts') ⟨h₁, hp⟩
      have hd' : ∀ t ∈ r₁, Readable t := fun t ht => hd t (by rw [hs]; simp [ht])
      obtain ⟨d, hr, rfl⟩ := statements_derives hd' hq
      obtain ⟨d', ht, hd⟩ := Items.exists_cons ds d (by rw [← hr]; exact endsStatement_eq_ok hu)
      exact ⟨d', by rw [ht, hs, hr], hd⟩
termination_by ts.length

end AgentScript.Grammar

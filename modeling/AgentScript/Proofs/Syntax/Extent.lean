import AgentScript.Proofs.Syntax.Soundness

/-! How far the parser looks. What it reads as a part of a text depends on that part, on the first
token after it and, for the `else` of a branch, on the first one after the newlines there. -/
namespace AgentScript.Grammar

open AgentScript.Parser

variable {stop : Token}

def SameHead (r r' : List Token) : Prop := r'.head? = r.head?

theorem SameHead.of_mem {t : Token} {r : List Token} (h : t ∈ r.head?) (more : List Token) :
    SameHead r (t :: more) := h.symm

theorem SameHead.append {r r' : List Token} (h : SameHead r r') (ts : List Token) :
    SameHead (ts ++ r) (ts ++ r') := by
  rw [SameHead, List.head?_append, List.head?_append, h]

theorem Clear.congr {k : Nat} {r r' : List Token} (hc : Clear k r) (h : SameHead r r') :
    Clear k r' := by
  intro t ht
  rw [h] at ht
  exact hc t ht

/-- Where the parser reads `a` and leaves `r`, it reads `a` from the same tokens before every rest
that is like `r`. -/
def Takes {α : Type} {P : List Token → List Token → Prop} (like : List Token → List Token → Prop)
    (f : Token → (ts : List Token) → Except Trouble (α × { r // P ts r })) (ts : List Token)
    (a : α) (r : List Token) : Prop :=
  ∃ pre, ts = pre ++ r ∧ ∀ stop r', like r r' → Reads (f stop (pre ++ r')) a r'

theorem argument_takes {command what : String} {ts r : List Token} {e : Expr}
    (hd : ∀ t ∈ ts, Readable t) (h : Reads (argument stop command what ts) e r) :
    Takes SameHead (argument · command what) ts e r := by
  obtain ⟨d, rfl, rfl, hc⟩ := argument_derives hd h
  refine ⟨d.tokens, rfl, fun stop' r' hr => ?_⟩
  exact reads_argument stop' command what d (fun t ht => hd t (by simp [ht])) (hc.congr hr)

theorem optionalArgument_takes {ts r : List Token} {o : Option Expr} (hd : ∀ t ∈ ts, Readable t)
    (h : Reads (optionalArgument stop ts) o r) : Takes SameHead optionalArgument ts o r := by
  obtain ⟨hl, h⟩ := h
  unfold optionalArgument at h
  split at h
  · obtain ⟨⟨e, r', h'⟩, hp, h⟩ := bind_eq_ok h
    cases h
    obtain ⟨d, rfl, rfl, hc⟩ := tier_derives hd ⟨h', hp⟩
    refine ⟨d.tokens, rfl, fun stop' r' hr => ?_⟩
    exact reads_optionalArgument stop' d (fun t ht => hd t (by simp [ht])) (hc.congr hr)
  · next hs =>
    cases h
    refine ⟨[], rfl, fun stop' r' hr => ⟨le_rfl, ?_⟩⟩
    exact if_neg (by rwa [List.nil_append, hr])

/-- Three coordinates that are read one after the other. -/
theorem coordinates_take {command : String} {ts r₁ r₂ r₃ : List Token} {x y z : Expr}
    (hd : ∀ t ∈ ts, Readable t)
    (hx : Reads (argument stop command "x coordinate" ts) x r₁)
    (hy : Reads (argument stop command "y coordinate" r₁) y r₂)
    (hz : Reads (argument stop command "z coordinate" r₂) z r₃) :
    ∃ pre, ts = pre ++ r₃ ∧ ∀ stop' r', SameHead r₃ r' → ∃ s₁ s₂,
      Reads (argument stop' command "x coordinate" (pre ++ r')) x s₁ ∧
      Reads (argument stop' command "y coordinate" s₁) y s₂ ∧
      Reads (argument stop' command "z coordinate" s₂) z r' := by
  obtain ⟨p₁, rfl, tx⟩ := argument_takes hd hx
  obtain ⟨p₂, rfl, ty⟩ := argument_takes (fun t ht => hd t (by simp [ht])) hy
  obtain ⟨p₃, rfl, tz⟩ := argument_takes (fun t ht => hd t (by simp [ht])) hz
  refine ⟨p₁ ++ (p₂ ++ p₃), by simp, fun stop' r' hr => ⟨p₂ ++ (p₃ ++ r'), p₃ ++ r', ?_⟩⟩
  rw [List.append_assoc, List.append_assoc]
  exact ⟨tx stop' _ ((hr.append p₃).append p₂), ty stop' _ (hr.append p₃), tz stop' r' hr⟩

theorem goto_takes {loc : Location} {ts r : List Token} {c : Command}
    (hd : ∀ t ∈ ts, Readable t) (h : Reads (command stop loc .gotoWord ts) c r) :
    Takes SameHead (command · loc .gotoWord) ts c r := by
  obtain ⟨_, h⟩ := h
  obtain ⟨⟨x, r₁, h₁⟩, hx, h⟩ := bind_eq_ok h
  obtain ⟨⟨y, r₂, h₂⟩, hy, h⟩ := bind_eq_ok h
  obtain ⟨⟨z, r₃, h₃⟩, hz, h⟩ := bind_eq_ok h
  cases h
  obtain ⟨pre, rfl, tc⟩ := coordinates_take hd ⟨h₁, hx⟩ ⟨h₂, hy⟩ ⟨h₃, hz⟩
  refine ⟨pre, rfl, fun stop' r' hr => ?_⟩
  obtain ⟨s₁, s₂, ⟨l₁, ex⟩, ⟨l₂, ey⟩, ⟨l₃, ez⟩⟩ := tc stop' r' hr
  refine ⟨by omega, ?_⟩
  simp only [command, ex, ey, ez, bind, Except.bind]
  rfl

theorem place_takes {loc : Location} {ts r : List Token} {c : Command}
    (hd : ∀ t ∈ ts, Readable t) (h : Reads (command stop loc .placeWord ts) c r) :
    Takes SameHead (command · loc .placeWord) ts c r := by
  obtain ⟨_, h⟩ := h
  obtain ⟨⟨item, r₀, h₀⟩, hi, h⟩ := bind_eq_ok h
  obtain ⟨pre, rfl, ti⟩ := argument_takes hd ⟨h₀, hi⟩
  dsimp only at h
  split at h
  · next hs =>
    obtain ⟨⟨x, r₁, h₁⟩, hx, h⟩ := bind_eq_ok h
    obtain ⟨⟨y, r₂, h₂⟩, hy, h⟩ := bind_eq_ok h
    obtain ⟨⟨z, r₃, h₃⟩, hz, h⟩ := bind_eq_ok h
    cases h
    obtain ⟨pre', rfl, tc⟩ := coordinates_take (fun t ht => hd t (by simp [ht]))
      ⟨h₁, hx⟩ ⟨h₂, hy⟩ ⟨h₃, hz⟩
    refine ⟨pre ++ pre', by simp, fun stop' r' hr => ?_⟩
    obtain ⟨l₀, ei⟩ := ti stop' _ (hr.append pre')
    obtain ⟨s₁, s₂, ⟨l₁, ex⟩, ⟨l₂, ey⟩, ⟨l₃, ez⟩⟩ := tc stop' r' hr
    rw [List.append_assoc]
    rw [← hr.append pre'] at hs
    refine ⟨by omega, ?_⟩
    simp only [command, ei, hs, if_true, ex, ey, ez, bind, Except.bind]
    rfl
  · next hs =>
    cases h
    refine ⟨pre, rfl, fun stop' r' hr => ?_⟩
    obtain ⟨l₀, ei⟩ := ti stop' r' hr
    rw [← hr] at hs
    refine ⟨by omega, ?_⟩
    simp only [command, ei, hs, bind, Except.bind]
    rfl

theorem drop_takes {loc : Location} {ts r : List Token} {c : Command}
    (hd : ∀ t ∈ ts, Readable t) (h : Reads (command stop loc .dropWord ts) c r) :
    Takes SameHead (command · loc .dropWord) ts c r := by
  obtain ⟨_, h⟩ := h
  obtain ⟨⟨item, r₀, h₀⟩, hi, h⟩ := bind_eq_ok h
  obtain ⟨⟨o, r', h'⟩, hp, h⟩ := bind_eq_ok h
  cases h
  obtain ⟨pre, rfl, ti⟩ := argument_takes hd ⟨h₀, hi⟩
  obtain ⟨pre', rfl, tn⟩ := optionalArgument_takes (fun t ht => hd t (by simp [ht])) ⟨h', hp⟩
  refine ⟨pre ++ pre', by simp, fun stop' r' hr => ?_⟩
  obtain ⟨l₀, ei⟩ := ti stop' _ (hr.append pre')
  obtain ⟨l₁, eo⟩ := tn stop' r' hr
  rw [List.append_assoc]
  refine ⟨by omega, ?_⟩
  simp only [command, ei, eo, bind, Except.bind]
  rfl

theorem command_takes {loc : Location} {k : Keyword} {ts r : List Token} {c : Command}
    (hd : ∀ t ∈ ts, Readable t) (h : Reads (command stop loc k ts) c r) :
    Takes SameHead (command · loc k) ts c r := by
  cases k with
  | sayWord | attackWord | equipWord | waitWord =>
    obtain ⟨_, h⟩ := h
    obtain ⟨⟨e, r', h'⟩, hp, h⟩ := bind_eq_ok h
    cases h
    obtain ⟨pre, rfl, te⟩ := argument_takes hd ⟨h', hp⟩
    refine ⟨pre, rfl, fun stop' r' hr => ?_⟩
    obtain ⟨hl', he⟩ := te stop' r' hr
    refine ⟨by omega, ?_⟩
    simp only [command, he, bind, Except.bind]
    rfl
  | digWord =>
    obtain ⟨_, h⟩ := h
    obtain ⟨⟨o, r', h'⟩, hp, h⟩ := bind_eq_ok h
    cases h
    obtain ⟨pre, rfl, tn⟩ := optionalArgument_takes hd ⟨h', hp⟩
    refine ⟨pre, rfl, fun stop' r' hr => ?_⟩
    obtain ⟨hl', he⟩ := tn stop' r' hr
    refine ⟨hl', ?_⟩
    simp only [command, he, bind, Except.bind]
    rfl
  | gotoWord => exact goto_takes hd h
  | placeWord => exact place_takes hd h
  | dropWord => exact drop_takes hd h
  | _ =>
    obtain ⟨_, h⟩ := h
    cases h

theorem binding_takes {keyword : String} {ts r : List Token} {b : String × Expr}
    (hd : ∀ t ∈ ts, Readable t) (h : Reads (binding stop keyword ts) b r) :
    Takes SameHead (binding · keyword) ts b r := by
  obtain ⟨hl, h⟩ := h
  unfold binding at h
  obtain ⟨⟨n, r₁, h₁⟩, hn, h⟩ := bind_eq_ok h
  obtain ⟨⟨sign, r₂, h₂⟩, hs, h⟩ := bind_eq_ok h
  obtain ⟨⟨e', r₃, h₃⟩, hp, h⟩ := bind_eq_ok h
  cases h
  obtain ⟨rfl, hnk⟩ := take_eq_ok ⟨h₁, hn⟩
  obtain ⟨rfl, hsk⟩ := take_eq_ok ⟨h₂, hs⟩
  obtain ⟨d, rfl, rfl, hc⟩ := tier_derives (fun t ht => hd t (by simp [ht])) ⟨h₃, hp⟩
  refine ⟨n :: sign :: d.tokens, rfl, fun stop' r' hr => ?_⟩
  exact reads_binding stop' keyword ⟨n, hnk⟩ ⟨sign, hsk⟩ d (fun t ht => hd t (by simp [ht]))
    (hc.congr hr)

/-- The first tokens are the same, and the first ones after the newlines. -/
structure Alike (r r' : List Token) : Prop where
  head : SameHead r r'
  beyond : SameHead (r.dropWhile isNewline) (r'.dropWhile isNewline)

/-- Where a rest does not begin with a newline, its first token is all that counts. -/
theorem SameHead.alike {t : Token} {r r' : List Token} (hn : t.kind ≠ .newline)
    (h : SameHead (t :: r) r') : Alike (t :: r) r' := by
  refine ⟨h, ?_⟩
  cases r' with
  | nil => cases h
  | cons t' r' =>
    obtain rfl : t' = t := by simpa [SameHead] using h
    rw [List.dropWhile_cons_of_neg (by simp [isNewline, hn]),
      List.dropWhile_cons_of_neg (by simp [isNewline, hn])]
    exact h

theorem Alike.newline {t : Token} {r r' : List Token} (hk : t.kind = .newline)
    (h : Alike r r') : Alike (t :: r) (t :: r') := by
  refine ⟨rfl, ?_⟩
  rw [List.dropWhile_cons_of_pos (by simp [isNewline, hk]),
    List.dropWhile_cons_of_pos (by simp [isNewline, hk])]
  exact h.beyond

theorem Alike.afterElse?_eq_none {r r' : List Token} (h : Alike r r')
    (hr : afterElse? r = none) : afterElse? r' = none := by
  apply Grammar.afterElse?_eq_none
  rw [h.beyond]
  intro t ht hk
  unfold afterElse? at hr
  split at hr
  · next he =>
    rw [he] at ht
    cases ht
  · next t' r' he =>
    rw [he] at ht
    obtain rfl : t' = t := by simpa using ht
    rw [if_pos hk] at hr
    cases hr

theorem branch_takes (word : Terminal (.keyword .ifWord)) {ts r : List Token} {s : Stmt}
    (hd : ∀ t ∈ ts, Readable t) (h : Reads (statement stop (word.val :: ts)) s r) :
    Takes Alike statement (word.val :: ts) s r := by
  obtain ⟨hl, h⟩ := h
  unfold statement at h
  simp only [word.property] at h
  obtain ⟨⟨e, r₁, h₁⟩, he, h⟩ := bind_eq_ok h
  obtain ⟨⟨o, r₂, h₂⟩, ho, h⟩ := bind_eq_ok h
  obtain ⟨⟨yes, r₃, h₃⟩, hy, h⟩ := bind_eq_ok h
  obtain ⟨condition, rfl, rfl, hc⟩ := tier_derives hd ⟨h₁, he⟩
  obtain ⟨rfl, hok⟩ := take_eq_ok ⟨h₂, ho⟩
  obtain ⟨dy, cy, rfl, rfl⟩ := block_derives _ _ _ _ _ (fun t ht => hd t (by simp [ht])) ⟨h₃, hy⟩
  have hcr : ∀ t ∈ condition.tokens, Readable t := fun t ht => hd t (by simp [ht])
  have hyr : ∀ t ∈ dy.tokens, Readable t := fun t ht => hd t (by simp [ht])
  dsimp only at h
  split at h
  · next hg =>
    cases h
    refine ⟨word.val :: (condition.tokens ++ o :: (dy.tokens ++ [cy.val])), by simp,
      fun stop' r' hr => ?_⟩
    have ht : word.val :: (condition.tokens ++ o :: (dy.tokens ++ [cy.val])) ++ r' =
        word.val :: (condition.tokens ++ o :: (dy.tokens ++ cy.val :: r')) := by simp
    rw [ht]
    exact reads_branch word ⟨o, hok⟩ (condition.reads hcr (clear_openBrace ⟨o, hok⟩ _ 6))
      (dy.reads stop' hyr _ cy r') (hr.afterElse?_eq_none hg)
  · next r₄ h₄ hg =>
    obtain ⟨⟨o', r₅, h₅⟩, ho', h⟩ := bind_eq_ok h
    obtain ⟨⟨no, r₆, h₆⟩, hn, h⟩ := bind_eq_ok h
    cases h
    obtain ⟨gap, otherwise, rfl⟩ := exists_gap hg
    obtain ⟨rfl, hok'⟩ := take_eq_ok ⟨h₅, ho'⟩
    obtain ⟨dn, cn, rfl, rfl⟩ :=
      block_derives _ _ _ _ _ (fun t ht => hd t (by simp [ht])) ⟨h₆, hn⟩
    have hnr : ∀ t ∈ dn.tokens, Readable t := fun t ht => hd t (by simp [ht])
    refine ⟨word.val :: (condition.tokens ++ o :: (dy.tokens ++ cy.val :: (gap.map (·.val) ++
      otherwise.val :: o' :: (dn.tokens ++ [cn.val])))), by simp, fun stop' r' hr => ?_⟩
    have ht : word.val :: (condition.tokens ++ o :: (dy.tokens ++ cy.val :: (gap.map (·.val) ++
          otherwise.val :: o' :: (dn.tokens ++ [cn.val])))) ++ r' =
        word.val :: (condition.tokens ++ o :: (dy.tokens ++ cy.val :: (gap.map (·.val) ++
          otherwise.val :: o' :: (dn.tokens ++ cn.val :: r')))) := by simp
    rw [ht]
    exact reads_choice word ⟨o, hok⟩ gap otherwise ⟨o', hok'⟩
      (condition.reads hcr (clear_openBrace ⟨o, hok⟩ _ 6)) (dy.reads stop' hyr _ cy _)
      (dn.reads stop' hnr _ cn r')

theorem loop_takes (word : Terminal (.keyword .repeatWord)) {ts r : List Token} {s : Stmt}
    (hd : ∀ t ∈ ts, Readable t) (h : Reads (statement stop (word.val :: ts)) s r) :
    Takes Alike statement (word.val :: ts) s r := by
  obtain ⟨hl, h⟩ := h
  unfold statement at h
  simp only [word.property] at h
  obtain ⟨⟨e, r₁, h₁⟩, he, h⟩ := bind_eq_ok h
  obtain ⟨⟨o, r₂, h₂⟩, ho, h⟩ := bind_eq_ok h
  obtain ⟨⟨body, r₃, h₃⟩, hb, h⟩ := bind_eq_ok h
  cases h
  obtain ⟨count, rfl, rfl, -⟩ := tier_derives hd ⟨h₁, he⟩
  obtain ⟨rfl, hok⟩ := take_eq_ok ⟨h₂, ho⟩
  obtain ⟨d, c, rfl, rfl⟩ := block_derives _ _ _ _ _ (fun t ht => hd t (by simp [ht])) ⟨h₃, hb⟩
  refine ⟨word.val :: (count.tokens ++ o :: (d.tokens ++ [c.val])), by simp, fun stop' r' _ => ?_⟩
  have he : Reads (expr stop' _) count.tree _ := count.reads (fun t ht => hd t (by simp [ht]))
    (clear_openBrace ⟨o, hok⟩ (d.tokens ++ c.val :: r') 6)
  have hb := d.reads stop' (fun t ht => hd t (by simp [ht])) "repeat count" c r'
  have ht : word.val :: (count.tokens ++ o :: (d.tokens ++ [c.val])) ++ r' =
      word.val :: (count.tokens ++ o :: (d.tokens ++ c.val :: r')) := by simp
  rw [ht]
  exact reads_loop word ⟨o, hok⟩ he hb

theorem evaluate_takes {t : Token} {ts r : List Token} {e : Expr} (hk : sortOf t.kind = 5)
    (hd : ∀ t' ∈ t :: ts, Readable t') (h : Reads (expr stop (t :: ts)) e r) :
    Takes Alike statement (t :: ts) (.evaluate t.loc e) r := by
  obtain ⟨d, ht, rfl, hc⟩ := tier_derives hd h
  obtain ⟨t', ts', hh, -⟩ := d.exists_head
  obtain rfl : t = t' := by
    rw [hh] at ht
    exact (List.cons.inj ht).1
  refine ⟨d.tokens, ht, fun stop' r' hr => ?_⟩
  have he : Reads (expr stop' (d.tokens ++ r')) d.tree r' :=
    d.reads (fun t' ht' => hd t' (by rw [ht]; simp [ht'])) (hc.congr hr.head)
  rw [hh] at he ⊢
  exact reads_evaluate hk he

/-- The parser reads a statement from the same tokens before every rest where the same tokens decide
that it ends and that no `else` follows. -/
theorem statement_takes {ts r : List Token} {s : Stmt} (hd : ∀ t ∈ ts, Readable t)
    (h : Reads (statement stop ts) s r) : Takes Alike statement ts s r := by
  have whole := h
  obtain ⟨hl, h⟩ := h
  cases ts with
  | nil =>
    rw [statement] at h
    cases h
  | cons t ts =>
    have hts : ∀ t ∈ ts, Readable t := fun t ht => hd t (by simp [ht])
    rw [statement] at h
    split at h
    case h_1 hk =>
      obtain ⟨⟨⟨name, e⟩, r₁, h₁⟩, hb, h⟩ := bind_eq_ok h
      cases h
      obtain ⟨pre, rfl, tb⟩ := binding_takes hts ⟨h₁, hb⟩
      exact ⟨t :: pre, rfl, fun stop' r' hr => reads_declare ⟨t, hk⟩ (tb stop' r' hr.head)⟩
    case h_2 hk =>
      obtain ⟨⟨⟨name, e⟩, r₁, h₁⟩, hb, h⟩ := bind_eq_ok h
      cases h
      obtain ⟨pre, rfl, tb⟩ := binding_takes hts ⟨h₁, hb⟩
      exact ⟨t :: pre, rfl, fun stop' r' hr => reads_assign ⟨t, hk⟩ (tb stop' r' hr.head)⟩
    case h_3 hk => exact branch_takes ⟨t, hk⟩ hts whole
    case h_4 hk => exact loop_takes ⟨t, hk⟩ hts whole
    case h_5 k hv hs hi hr hk =>
      split at h
      · next hc =>
        obtain ⟨⟨c, r₁, h₁⟩, hp, h⟩ := bind_eq_ok h
        cases h
        obtain ⟨pre, rfl, tc⟩ := command_takes hts ⟨h₁, hp⟩
        exact ⟨t :: pre, rfl, fun stop' r' hr => reads_command hk hc (tc stop' r' hr.head)⟩
      · next hc =>
        obtain ⟨⟨e, r₁, h₁⟩, he, h⟩ := bind_eq_ok h
        cases h
        refine evaluate_takes ?_ hd ⟨h₁, he⟩
        rw [hk]
        cases k <;> first | rfl | simp_all [Keyword.isCommand]
    case h_6 hv hs hi hr hk =>
      obtain ⟨⟨e, r₁, h₁⟩, he, h⟩ := bind_eq_ok h
      cases h
      refine evaluate_takes ?_ hd ⟨h₁, he⟩
      unfold sortOf
      split <;> simp_all

end AgentScript.Grammar

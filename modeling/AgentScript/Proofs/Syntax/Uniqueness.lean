import AgentScript.Proofs.Syntax.Statement

/-! No text has a second derivation. -/
namespace AgentScript.Grammar

theorem gap_unique : (gap gap' : List (Terminal .newline)) →
    {word word' : Terminal (.keyword .elseWord)} → {r r' : List Token} →
    gap.map (·.val) ++ word.val :: r = gap'.map (·.val) ++ word'.val :: r' →
    gap = gap' ∧ word = word' ∧ r = r'
  | [], [], _, _, _, _, h => by
    obtain ⟨hw, hr⟩ := List.cons.inj h
    exact ⟨rfl, Subtype.ext hw, hr⟩
  | [], t :: gap', word, _, _, _, h => by
    have hw := word.property
    rw [(List.cons.inj h).1, t.property] at hw
    cases hw
  | t :: gap, [], _, word', _, _, h => by
    have hw := word'.property
    rw [← (List.cons.inj h).1, t.property] at hw
    cases hw
  | t :: gap, t' :: gap', _, _, _, _, h => by
    obtain ⟨ht, h₁⟩ := List.cons.inj h
    obtain ⟨rfl, hw, hr⟩ := gap_unique gap gap' h₁
    exact ⟨by rw [Subtype.ext ht], hw, hr⟩

theorem clear_arguments (later : List Later) {r : List Token} (hr : Concludes r) :
    Clear 6 (later.flatMap (·.val.tokens) ++ r) := by
  cases later with
  | nil => exact hr.clear 6
  | cons e later =>
    rw [List.flatMap_cons, List.append_assoc]
    exact clear_later e _ 6

theorem expression_ne {e : Expression} {ts r : List Token} (hr : Concludes r)
    (h : e.tokens ++ ts = r) : False := by
  have hs := startsExpr_head e ts
  rw [h, hr.not_startsExpr] at hs
  cases hs

theorem later_unique : (later later' : List Later) → {r r' : List Token} →
    later.flatMap (·.val.tokens) ++ r = later'.flatMap (·.val.tokens) ++ r' →
    Concludes r → Concludes r' → later = later' ∧ r = r'
  | [], [], _, _, h, _, _ => ⟨rfl, h⟩
  | [], e :: later', _, _, h, hr, _ => by
    rw [List.flatMap_cons, List.append_assoc] at h
    exact (expression_ne hr h.symm).elim
  | e :: later, [], _, _, h, _, hr' => by
    rw [List.flatMap_cons, List.append_assoc] at h
    exact (expression_ne hr' h).elim
  | e :: later, e' :: later', _, _, h, hr, hr' => by
    simp only [List.flatMap_cons, List.append_assoc] at h
    obtain ⟨he, h₁⟩ := e.val.unique e'.val h (clear_arguments later hr) (clear_arguments later' hr')
    obtain ⟨rfl, hr⟩ := later_unique later later' h₁ hr hr'
    exact ⟨by rw [Subtype.ext he], hr⟩

theorem Arguments.unique (a a' : Arguments) {r r' : List Token}
    (h : a.tokens ++ r = a'.tokens ++ r') (hr : Concludes r) (hr' : Concludes r') :
    a = a' ∧ r = r' := by
  cases a with
  | nil =>
    cases a' with
    | nil => exact ⟨rfl, h⟩
    | cons first' later' =>
      rw [Arguments.tokens, Arguments.tokens, List.append_assoc] at h
      exact (expression_ne hr h.symm).elim
  | cons first later =>
    cases a' with
    | nil =>
      rw [Arguments.tokens, Arguments.tokens, List.append_assoc] at h
      exact (expression_ne hr' h).elim
    | cons first' later' =>
      simp only [Arguments.tokens, List.append_assoc] at h
      obtain ⟨rfl, h₁⟩ :=
        first.unique first' h (clear_arguments later hr) (clear_arguments later' hr')
      obtain ⟨rfl, rfl⟩ := later_unique later later' h₁ hr hr'
      exact ⟨rfl, rfl⟩

theorem Statement.sort_eq {d d' : Statement} {r r' : List Token}
    (h : d.tokens ++ r = d'.tokens ++ r') : d.sort = d'.sort := by
  obtain ⟨t, ts, ht, hs, -⟩ := d.exists_head
  obtain ⟨t', ts', ht', hs', -⟩ := d'.exists_head
  rw [ht, ht'] at h
  rw [← hs, ← hs', (List.cons.inj h).1]

theorem Stops.not_newline {r ts : List Token} (hr : Stops r) (t : Terminal .newline) :
    r ≠ t.val :: ts := by
  rintro rfl
  have hk := hr t.val rfl
  rw [t.property] at hk
  cases hk

theorem Stops.not_statement {r ts : List Token} (hr : Stops r) (s : Statement) :
    r ≠ s.tokens ++ ts := by
  rintro rfl
  obtain ⟨t, ts', ht, -, -, hc, -⟩ := s.exists_head
  exact hc (hr t (by rw [ht]; rfl))

theorem Statement.not_newline {r ts : List Token} (s : Statement) (t : Terminal .newline) :
    s.tokens ++ r ≠ t.val :: ts := by
  intro h
  obtain ⟨t', ts', ht, -, hn, -, -⟩ := s.exists_head
  rw [ht] at h
  exact hn (by rw [(List.cons.inj h).1, t.property])

/-- A block and the brace that closes it, read from one text twice. -/
theorem closing_unique {c c' : Terminal (.symbol .closeBrace)} {r r' : List Token}
    (h : c.val :: r = c'.val :: r') : c = c' ∧ r = r' := by
  obtain ⟨hc, hr⟩ := List.cons.inj h
  exact ⟨Subtype.ext hc, hr⟩

theorem no_else {r : List Token} (hr : Concludes r) (gap : List (Terminal .newline))
    (word : Terminal (.keyword .elseWord)) (ts : List Token) :
    r ≠ gap.map (·.val) ++ word.val :: ts := by
  rintro rfl
  obtain ⟨h, hg⟩ := afterElse?_gap gap word ts
  rw [afterElse?_eq_none hr.noElse] at hg
  cases hg

theorem binding_unique {name name' : Terminal .identifier} {sign sign' : Terminal (.symbol .assign)}
    {e e' : Expression} {r r' : List Token}
    (h : name.val :: sign.val :: (e.tokens ++ r) = name'.val :: sign'.val :: (e'.tokens ++ r'))
    (hr : Concludes r) (hr' : Concludes r') : name = name' ∧ sign = sign' ∧ e = e' ∧ r = r' := by
  obtain ⟨hn, h₁⟩ := List.cons.inj h
  obtain ⟨hs, h₂⟩ := List.cons.inj h₁
  obtain ⟨rfl, rfl⟩ := e.unique e' h₂ (hr.clear 6) (hr'.clear 6)
  exact ⟨Subtype.ext hn, Subtype.ext hs, rfl, rfl⟩

theorem opening_unique {word word' : Token} {e e' : Expression}
    {opening opening' : Terminal (.symbol .openBrace)} {ts ts' : List Token}
    (h : word :: (e.tokens ++ opening.val :: ts) = word' :: (e'.tokens ++ opening'.val :: ts')) :
    word = word' ∧ e = e' ∧ opening = opening' ∧ ts = ts' := by
  obtain ⟨hw, h₁⟩ := List.cons.inj h
  obtain ⟨rfl, h₂⟩ := e.unique e' h₁ (clear_openBrace opening ts 6) (clear_openBrace opening' ts' 6)
  obtain ⟨ho, rfl⟩ := List.cons.inj h₂
  exact ⟨hw, rfl, Subtype.ext ho, rfl⟩

mutual

/-- Two statements at the head of one text that end there are the same. -/
theorem Statement.unique : (d d' : Statement) → {r r' : List Token} →
    d.tokens ++ r = d'.tokens ++ r' → Concludes r → Concludes r' → d = d' ∧ r = r'
  | .declare word name sign value, d', _, _, h, hr, hr' => by
    have hs := Statement.sort_eq h
    cases d' with
    | declare word' name' sign' value' =>
      obtain ⟨hw, h₁⟩ := List.cons.inj h
      obtain ⟨rfl, rfl, rfl, rfl⟩ := binding_unique h₁ hr hr'
      rw [Subtype.ext hw]
      exact ⟨rfl, rfl⟩
    | _ => cases hs
  | .assign word name sign value, d', _, _, h, hr, hr' => by
    have hs := Statement.sort_eq h
    cases d' with
    | assign word' name' sign' value' =>
      obtain ⟨hw, h₁⟩ := List.cons.inj h
      obtain ⟨rfl, rfl, rfl, rfl⟩ := binding_unique h₁ hr hr'
      rw [Subtype.ext hw]
      exact ⟨rfl, rfl⟩
    | _ => cases hs
  | .branch word condition opening yes closing, d', _, _, h, hr, hr' => by
    have hs := Statement.sort_eq h
    cases d' with
    | branch word' condition' opening' yes' closing' =>
      simp only [Statement.tokens, List.cons_append, List.append_assoc, List.nil_append] at h
      obtain ⟨hw, rfl, rfl, h₁⟩ := opening_unique h
      obtain ⟨rfl, h₂⟩ := yes.unique yes' h₁ (stops_closing _ _) (stops_closing _ _)
      obtain ⟨rfl, rfl⟩ := closing_unique h₂
      rw [Subtype.ext hw]
      exact ⟨rfl, rfl⟩
    | choice word' condition' opening' yes' closing' gap otherwise opening'' no closing'' =>
      simp only [Statement.tokens, List.cons_append, List.append_assoc, List.nil_append] at h
      obtain ⟨-, rfl, rfl, h₁⟩ := opening_unique h
      obtain ⟨rfl, h₂⟩ := yes.unique yes' h₁ (stops_closing _ _) (stops_closing _ _)
      exact (no_else hr _ _ _ (closing_unique h₂).2).elim
    | _ => cases hs
  | .choice word condition opening yes closing gap otherwise openingNo no closingNo, d', _, _, h,
      hr, hr' => by
    have hs := Statement.sort_eq h
    cases d' with
    | branch word' condition' opening' yes' closing' =>
      simp only [Statement.tokens, List.cons_append, List.append_assoc, List.nil_append] at h
      obtain ⟨-, rfl, rfl, h₁⟩ := opening_unique h
      obtain ⟨rfl, h₂⟩ := yes.unique yes' h₁ (stops_closing _ _) (stops_closing _ _)
      exact (no_else hr' _ _ _ (closing_unique h₂).2.symm).elim
    | choice word' condition' opening' yes' closing' gap' otherwise' openingNo' no' closingNo' =>
      simp only [Statement.tokens, List.cons_append, List.append_assoc, List.nil_append] at h
      obtain ⟨hw, rfl, rfl, h₁⟩ := opening_unique h
      obtain ⟨rfl, h₂⟩ := yes.unique yes' h₁ (stops_closing _ _) (stops_closing _ _)
      obtain ⟨rfl, h₃⟩ := closing_unique h₂
      obtain ⟨rfl, rfl, h₄⟩ := gap_unique gap gap' h₃
      obtain ⟨ho, h₅⟩ := List.cons.inj h₄
      obtain ⟨rfl, h₆⟩ := no.unique no' h₅ (stops_closing _ _) (stops_closing _ _)
      obtain ⟨rfl, rfl⟩ := closing_unique h₆
      rw [Subtype.ext hw, Subtype.ext ho]
      exact ⟨rfl, rfl⟩
    | _ => cases hs
  | .loop word count opening body closing, d', _, _, h, hr, hr' => by
    have hs := Statement.sort_eq h
    cases d' with
    | loop word' count' opening' body' closing' =>
      simp only [Statement.tokens, List.cons_append, List.append_assoc, List.nil_append] at h
      obtain ⟨hw, rfl, rfl, h₁⟩ := opening_unique h
      obtain ⟨rfl, h₂⟩ := body.unique body' h₁ (stops_closing _ _) (stops_closing _ _)
      obtain ⟨rfl, rfl⟩ := closing_unique h₂
      rw [Subtype.ext hw]
      exact ⟨rfl, rfl⟩
    | _ => cases hs
  | .command word k arguments c hk hc, d', _, _, h, hr, hr' => by
    have hs := Statement.sort_eq h
    cases d' with
    | command word' k' arguments' c' hk' hc' =>
      obtain ⟨rfl, h₁⟩ := List.cons.inj h
      rw [hk] at hk'
      cases hk'
      obtain ⟨rfl, rfl⟩ := arguments.unique arguments' h₁ hr hr'
      rw [hc] at hc'
      cases hc'
      exact ⟨rfl, rfl⟩
    | _ => cases hs
  | .evaluate e, d', _, _, h, hr, hr' => by
    have hs := Statement.sort_eq h
    cases d' with
    | evaluate e' =>
      obtain ⟨rfl, rfl⟩ := Phrase.unique e e' h (hr.clear 6) (hr'.clear 6)
      exact ⟨rfl, rfl⟩
    | _ => cases hs

/-- Two blocks at the head of one text that end there are the same. -/
theorem Items.unique : (d d' : Items) → {r r' : List Token} →
    d.tokens ++ r = d'.tokens ++ r' → Stops r → Stops r' → d = d' ∧ r = r'
  | .nil, d', _, _, h, hr, _ => by
    cases d' with
    | nil => exact ⟨rfl, h⟩
    | newline t rest => exact (hr.not_newline t h).elim
    | last s => exact (hr.not_statement s h).elim
    | line s t rest =>
      rw [Items.tokens, Items.tokens, List.append_assoc] at h
      exact (hr.not_statement s h).elim
  | .newline t rest, d', _, _, h, hr, hr' => by
    cases d' with
    | nil => exact (hr'.not_newline t h.symm).elim
    | newline t' rest' =>
      obtain ⟨ht, h₁⟩ := List.cons.inj h
      obtain ⟨rfl, rfl⟩ := rest.unique rest' h₁ hr hr'
      rw [Subtype.ext ht]
      exact ⟨rfl, rfl⟩
    | last s => exact (s.not_newline t h.symm).elim
    | line s t' rest' =>
      rw [Items.tokens, Items.tokens, List.append_assoc] at h
      exact (s.not_newline t h.symm).elim
  | .last s, d', _, _, h, hr, hr' => by
    cases d' with
    | nil => exact (hr'.not_statement s h.symm).elim
    | newline t rest => exact (s.not_newline t h).elim
    | last s' =>
      obtain ⟨rfl, rfl⟩ := s.unique s' h hr.concludes hr'.concludes
      exact ⟨rfl, rfl⟩
    | line s' t rest =>
      rw [Items.tokens, Items.tokens, List.append_assoc] at h
      obtain ⟨-, h₁⟩ := s.unique s' h hr.concludes (concludes_line t rest hr')
      exact (hr.not_newline t h₁).elim
  | .line s t rest, d', _, _, h, hr, hr' => by
    rw [Items.tokens, List.append_assoc] at h
    cases d' with
    | nil => exact (hr'.not_statement s h.symm).elim
    | newline t' rest' => exact (s.not_newline t' h).elim
    | last s' =>
      obtain ⟨-, h₁⟩ := s.unique s' h (concludes_line t rest hr) hr'.concludes
      exact (hr'.not_newline t h₁.symm).elim
    | line s' t' rest' =>
      rw [Items.tokens, List.append_assoc] at h
      obtain ⟨rfl, h₁⟩ := s.unique s' h (concludes_line t rest hr) (concludes_line t' rest' hr')
      obtain ⟨ht, h₂⟩ := List.cons.inj h₁
      obtain ⟨rfl, rfl⟩ := rest.unique rest' h₂ hr hr'
      rw [Subtype.ext ht]
      exact ⟨rfl, rfl⟩

end

end AgentScript.Grammar

import AgentScript.Proofs.Except
import AgentScript.Proofs.Syntax.Grammar
import Mathlib.Data.List.TakeWhile

/-! The parser reads an expression exactly where one can be derived, and in one way only. -/
namespace AgentScript.Grammar

open AgentScript.Parser

/-- The rest does not go on with an operator of the `k` tightest levels. -/
def Clear (k : Nat) (ts : List Token) : Prop :=
  ∀ t ∈ ts.head?, ∀ j < k, binaryOp? j t.kind = none

/-- The text of a token can be read as its kind says. -/
structure Readable (t : Token) : Prop where
  number : t.kind = .number → ∃ x, Number.readFloat? t.text = some x
  binary : ∀ k op, binaryOp? k t.kind = some op → binaryOf t = .ok op
  unary : ∀ op, unaryOp? t.kind = some op → unaryOf t = .ok op

theorem tierOf_eq_some_iff {k : Nat} {kind : TokenKind} :
    tierOf kind = some k ↔ ∃ op, binaryOp? k kind = some op := by
  constructor
  · intro h
    unfold tierOf at h
    split at h <;> cases h <;> exact ⟨_, rfl⟩
  · rintro ⟨op, h⟩
    unfold binaryOp? at h
    split at h <;> first | rfl | cases h

theorem level_unique {j k : Nat} {kind : TokenKind} {op op' : BinaryOp}
    (h : binaryOp? j kind = some op) (h' : binaryOp? k kind = some op') : j = k := by
  have hj := tierOf_eq_some_iff.mpr ⟨op, h⟩
  rw [tierOf_eq_some_iff.mpr ⟨op', h'⟩] at hj
  exact (Option.some.inj hj).symm

theorem Clear.mono {j k : Nat} {ts : List Token} (h : Clear k ts) (hj : j ≤ k) : Clear j ts :=
  fun t ht i hi => h t ht i (by omega)

/-- After an operand of level `k` its operators follow, or what follows them. -/
theorem Tail.clear {k : Nat} (d : Tail k) {r : List Token} (hr : Clear (k + 1) r) :
    Clear k (d.tokens ++ r) := by
  cases d with
  | nil => exact hr.mono (by omega)
  | cons t op h right rest =>
    intro t' ht' j hj
    obtain rfl : t = t' := by simpa [Tail.tokens] using ht'
    cases h' : binaryOp? j t.kind with
    | none => rfl
    | some op' =>
      have := level_unique h h'
      omega

variable {stop : Token}

def Reads {α : Type} {P : List Token → Prop} (x : Except Trouble (α × { r // P r })) (a : α)
    (r : List Token) : Prop :=
  ∃ h, x = .ok (a, ⟨r, h⟩)

theorem reads_primary {t : Token} {e : Expr} (h : primary? t = some e) (ht : Readable t)
    (r : List Token) : Reads (unary stop (t :: r)) e r := by
  refine ⟨by simp, ?_⟩
  unfold primary? at h
  split at h
  · next hk =>
    obtain ⟨x, hx⟩ := ht.number hk
    cases h
    simp [unary, hk, numberOf, hx, bind, Except.bind, pure, Except.pure]
  · next hk => cases h; simp [unary, hk]
  · next hk => cases h; simp [unary, hk]
  · next hk => cases h; simp [unary, hk]
  · next hk => cases h; simp [unary, hk]
  · cases h

theorem reads_unary {t : Token} {op : UnaryOp} (h : unaryOp? t.kind = some op)
    (ht : Readable t) {ts r : List Token} {e : Expr} (hp : Reads (unary stop ts) e r) :
    Reads (unary stop (t :: ts)) (.unary t.loc op e) r := by
  obtain ⟨hr, hp⟩ := hp
  refine ⟨by simp; omega, ?_⟩
  have hu := ht.unary op h
  unfold unaryOp? at h
  split at h
  · next hk => simp [unary, hk, hp, hu, bind, Except.bind, pure, Except.pure]
  · next hk => simp [unary, hk, hp, hu, bind, Except.bind, pure, Except.pure]
  · cases h

theorem reads_group {t c : Token} (h : t.kind = .symbol .openParen)
    (hc : c.kind = .symbol .closeParen) {ts r : List Token} {e : Expr}
    (hp : Reads (tier stop 6 ts) e (c :: r)) : Reads (unary stop (t :: ts)) e r := by
  obtain ⟨hr, hp⟩ := hp
  refine ⟨by simp at hr ⊢; omega, ?_⟩
  simp [unary, h, hp, take, hc, bind, Except.bind, pure, Except.pure]

theorem reads_chain {k : Nat} {ts r r' : List Token} {left e : Expr}
    (hp : Reads (tier stop k ts) left r) (hq : Reads (tail stop k left r) e r') :
    Reads (tier stop (k + 1) ts) e r' := by
  obtain ⟨hr, hp⟩ := hp
  obtain ⟨hr', hq⟩ := hq
  refine ⟨by omega, ?_⟩
  simp [tier, hp, hq, bind, Except.bind, pure, Except.pure]

theorem reads_nil {k : Nat} {r : List Token} (hr : Clear (k + 1) r) (left : Expr) :
    Reads (tail stop k left r) left r := by
  refine ⟨le_rfl, ?_⟩
  cases r with
  | nil => simp [tail]
  | cons t r =>
    have ht : tierOf t.kind ≠ some k := by
      intro h
      obtain ⟨op, hop⟩ := tierOf_eq_some_iff.mp h
      rw [hr t rfl k (by omega)] at hop
      cases hop
    simp [tail, ht]

theorem reads_cons {k : Nat} {t : Token} {op : BinaryOp} (h : binaryOp? k t.kind = some op)
    (ht : Readable t) {ts r r' : List Token} {left right e : Expr}
    (hp : Reads (tier stop k ts) right r)
    (hq : Reads (tail stop k (.binary t.loc op left right) r) e r') :
    Reads (tail stop k left (t :: ts)) e r' := by
  obtain ⟨hr, hp⟩ := hp
  obtain ⟨hr', hq⟩ := hq
  refine ⟨by simp; omega, ?_⟩
  have hb := ht.binary k op h
  have hk := tierOf_eq_some_iff.mpr ⟨op, h⟩
  simp [tail, hk, hp, hb, hq, bind, Except.bind, pure, Except.pure]

theorem clear_of_head {k : Nat} {ts : List Token} (h : ∀ t ∈ ts.head?, tierOf t.kind = none) :
    Clear k ts := by
  intro t ht j _
  cases hb : binaryOp? j t.kind with
  | none => rfl
  | some op => cases (h t ht).symm.trans (tierOf_eq_some_iff.mpr ⟨op, hb⟩)

theorem clear_cons {k : Nat} {t : Token} (h : tierOf t.kind = none) (r : List Token) :
    Clear k (t :: r) := by
  apply clear_of_head
  intro t' ht'
  obtain rfl : t = t' := by simpa using ht'
  exact h

theorem clear_closeParen {k : Nat} (t : Terminal (.symbol .closeParen)) (r : List Token) :
    Clear k (t.val :: r) := clear_cons (by rw [t.property]; rfl) r

mutual

/-- The parser reads a phrase as the tree that its derivation writes. -/
theorem Phrase.reads {r : List Token} : {k : Nat} → (d : Phrase k) →
    (∀ t ∈ d.tokens, Readable t) → Clear k r → Reads (tier stop k (d.tokens ++ r)) d.tree r
  | _, .primary t e h, hd, _ => by
    rw [tier]
    exact reads_primary h (hd t (by simp [Phrase.tokens])) r
  | _, .unary t op h operand, hd, hr => by
    have hp := operand.reads (fun t ht => hd t (by simp [Phrase.tokens, ht])) hr
    rw [tier] at hp ⊢
    exact reads_unary h (hd t (by simp [Phrase.tokens])) hp
  | _, .group opening inner closing, hd, _ => by
    have hp := inner.reads (fun t ht => hd t (by simp [Phrase.tokens, ht]))
      (clear_closeParen closing r)
    rw [tier, Phrase.tokens, Phrase.tree, List.cons_append, List.append_assoc]
    exact reads_group opening.property closing.property hp
  | _, .chain first rest, hd, hr => by
    have hp := first.reads (fun t ht => hd t (by simp [Phrase.tokens, ht])) (rest.clear hr)
    have hq := rest.reads (fun t ht => hd t (by simp [Phrase.tokens, ht])) first.tree hr
    rw [Phrase.tokens, Phrase.tree, List.append_assoc]
    exact reads_chain hp hq

theorem Tail.reads {r : List Token} : {k : Nat} → (d : Tail k) →
    (∀ t ∈ d.tokens, Readable t) → (left : Expr) → Clear (k + 1) r →
    Reads (tail stop k left (d.tokens ++ r)) (d.tree left) r
  | _, .nil, _, left, hr => reads_nil hr left
  | _, .cons t op h right rest, hd, left, hr => by
    have hp := right.reads (fun t ht => hd t (by simp [Tail.tokens, ht])) (rest.clear hr)
    have hq := rest.reads (fun t ht => hd t (by simp [Tail.tokens, ht]))
      (.binary t.loc op left right.tree) hr
    rw [Tail.tokens, Tail.tree, List.cons_append, List.append_assoc]
    exact reads_cons h (hd t (by simp [Tail.tokens])) hp hq

end

theorem take_eq_ok {kind : TokenKind} {wanted : String} {ts r : List Token} {t : Token}
    (h : Reads (take stop kind wanted ts) t r) : ts = t :: r ∧ t.kind = kind := by
  obtain ⟨hr, h⟩ := h
  unfold take at h
  split at h
  · cases h
  · split at h
    · next hk =>
      cases h
      exact ⟨rfl, hk⟩
    · cases h

mutual

/-- What the parser reads as a phrase has a derivation. -/
theorem unary_derives {ts r : List Token} {e : Expr} (hd : ∀ t ∈ ts, Readable t)
    (h : Reads (unary stop ts) e r) : ∃ d : Phrase 0, ts = d.tokens ++ r ∧ d.tree = e := by
  obtain ⟨hr, h⟩ := h
  cases ts with
  | nil =>
    rw [unary] at h
    cases h
  | cons t ts =>
    have hts : ∀ t ∈ ts, Readable t := fun t ht => hd t (by simp [ht])
    rw [unary] at h
    split at h
    case h_1 _ hk | h_2 _ hk =>
      obtain ⟨⟨operand, r₁, h₁⟩, hp, h⟩ := bind_eq_ok h
      obtain ⟨op, hop, h⟩ := bind_eq_ok h
      cases h
      obtain ⟨d, rfl, rfl⟩ := unary_derives hts ⟨h₁, hp⟩
      obtain ⟨op', hu⟩ : ∃ op', unaryOp? t.kind = some op' := by rw [hk]; exact ⟨_, rfl⟩
      rw [(hd t (by simp)).unary op' hu] at hop
      cases hop
      exact ⟨.unary t op hu d, rfl, rfl⟩
    case h_3 _ hk =>
      obtain ⟨x, hx, h⟩ := bind_eq_ok h
      cases h
      unfold numberOf at hx
      split at hx
      · next y hy =>
        cases hx
        exact ⟨.primary t (.number t.loc x) (by simp [primary?, hk, hy]), rfl, rfl⟩
      · cases hx
    case h_4 _ hk | h_5 _ hk | h_6 _ hk | h_7 _ hk =>
      have hp : primary? t = some e := by
        cases h
        simp only [primary?, hk]
      cases h
      exact ⟨.primary t _ hp, rfl, rfl⟩
    case h_8 _ hk =>
      obtain ⟨⟨inner, r₁, h₁⟩, hp, h⟩ := bind_eq_ok h
      obtain ⟨⟨c, r₂, h₂⟩, hc, h⟩ := bind_eq_ok h
      cases h
      obtain ⟨d, rfl, rfl, -⟩ := tier_derives hts ⟨h₁, hp⟩
      obtain ⟨rfl, hck⟩ := take_eq_ok ⟨h₂, hc⟩
      exact ⟨.group ⟨t, hk⟩ d ⟨c, hck⟩, by simp [Phrase.tokens], rfl⟩
    case h_9 => cases h
termination_by 8 * ts.length

theorem tier_derives {k : Nat} {ts r : List Token} {e : Expr} (hd : ∀ t ∈ ts, Readable t)
    (h : Reads (tier stop k ts) e r) :
    ∃ d : Phrase k, ts = d.tokens ++ r ∧ d.tree = e ∧ Clear k r := by
  cases k with
  | zero =>
    rw [tier] at h
    obtain ⟨d, ht, he⟩ := unary_derives hd h
    exact ⟨d, ht, he, fun _ _ j hj => by omega⟩
  | succ k =>
    obtain ⟨hr, h⟩ := h
    rw [tier] at h
    obtain ⟨⟨left, r₁, h₁⟩, hp, h⟩ := bind_eq_ok h
    obtain ⟨⟨e', r₂, h₂⟩, hq, h⟩ := bind_eq_ok h
    cases h
    obtain ⟨first, ht, rfl, hc⟩ := tier_derives hd ⟨h₁, hp⟩
    have hd' : ∀ t ∈ r₁, Readable t := fun t h => hd t (by simp [ht, h])
    obtain ⟨rest, rfl, rfl, hc'⟩ := tail_derives hd' hc ⟨h₂, hq⟩
    exact ⟨.chain first rest, by simp [ht, Phrase.tokens], rfl, hc'⟩
termination_by 8 * ts.length + k + 1

theorem tail_derives {k : Nat} {ts r : List Token} {left e : Expr}
    (hd : ∀ t ∈ ts, Readable t) (hc : Clear k ts) (h : Reads (tail stop k left ts) e r) :
    ∃ d : Tail k, ts = d.tokens ++ r ∧ d.tree left = e ∧ Clear (k + 1) r := by
  obtain ⟨hr, h⟩ := h
  cases ts with
  | nil =>
    rw [tail] at h
    cases h
    exact ⟨.nil, rfl, rfl, by simp [Clear]⟩
  | cons t ts =>
    have hts : ∀ t ∈ ts, Readable t := fun t ht => hd t (by simp [ht])
    rw [tail] at h
    split at h
    · next hk =>
      obtain ⟨op, hop⟩ := tierOf_eq_some_iff.mp hk
      obtain ⟨⟨right, r₁, h₁⟩, hp, h⟩ := bind_eq_ok h
      obtain ⟨op', hb, h⟩ := bind_eq_ok h
      rw [(hd t (by simp)).binary k op hop] at hb
      cases hb
      obtain ⟨⟨e', r₂, h₂⟩, hq, h⟩ := bind_eq_ok h
      cases h
      obtain ⟨d, ht, rfl, hc'⟩ := tier_derives hts ⟨h₁, hp⟩
      have hd' : ∀ t ∈ r₁, Readable t := fun t h => hts t (by simp [ht, h])
      obtain ⟨rest, rfl, rfl, hr'⟩ := tail_derives hd' hc' ⟨h₂, hq⟩
      exact ⟨.cons t op hop d rest, by simp [ht, Tail.tokens], rfl, hr'⟩
    · next hk =>
      cases h
      refine ⟨.nil, rfl, rfl, fun t' ht' j hj => ?_⟩
      obtain rfl : t = t' := by simpa using ht'
      rcases Nat.lt_succ_iff_lt_or_eq.mp hj with hj | rfl
      · exact hc t rfl j hj
      · exact Option.eq_none_iff_forall_ne_some.mpr fun op hop =>
          hk (tierOf_eq_some_iff.mpr ⟨op, hop⟩)
termination_by 8 * ts.length + k

end

/-! No text has a second derivation. -/

theorem unaryOp?_of_primary {t : Token} {e : Expr} (h : primary? t = some e) :
    unaryOp? t.kind = none := by
  unfold primary? at h
  split at h
  case h_6 => cases h
  all_goals next hk => rw [hk]; rfl

theorem primary?_of_openParen {t : Token} (h : t.kind = .symbol .openParen) :
    primary? t = none := by
  simp only [primary?, h]

theorem unaryOp?_of_openParen {t : Token} (h : t.kind = .symbol .openParen) :
    unaryOp? t.kind = none := by
  rw [h]
  rfl

mutual

/-- Two phrases at the head of one text that nothing goes on with are the same. -/
theorem Phrase.unique : {k : Nat} → (d d' : Phrase k) → {r r' : List Token} →
    d.tokens ++ r = d'.tokens ++ r' → Clear k r → Clear k r' → d = d' ∧ r = r'
  | _, .primary t e h, d', r, r', ht, _, _ => by
    cases d' with
    | primary t' e' h' =>
      obtain ⟨rfl, rfl⟩ := List.cons.inj ht
      rw [h] at h'
      cases h'
      exact ⟨rfl, rfl⟩
    | unary t' op h' operand =>
      obtain ⟨rfl, -⟩ := List.cons.inj ht
      rw [unaryOp?_of_primary h] at h'
      cases h'
    | group opening inner closing =>
      obtain ⟨rfl, -⟩ := List.cons.inj ht
      rw [primary?_of_openParen opening.property] at h
      cases h
  | _, .unary t op h operand, d', r, r', ht, hr, hr' => by
    cases d' with
    | primary t' e' h' =>
      obtain ⟨rfl, -⟩ := List.cons.inj ht
      rw [unaryOp?_of_primary h'] at h
      cases h
    | unary t' op' h' operand' =>
      obtain ⟨rfl, hop⟩ := List.cons.inj ht
      rw [h] at h'
      cases h'
      obtain ⟨rfl, rfl⟩ := operand.unique operand' hop hr hr'
      exact ⟨rfl, rfl⟩
    | group opening inner closing =>
      obtain ⟨rfl, -⟩ := List.cons.inj ht
      rw [unaryOp?_of_openParen opening.property] at h
      cases h
  | _, .group opening inner closing, d', r, r', ht, _, _ => by
    cases d' with
    | primary t' e' h' =>
      obtain ⟨rfl, -⟩ := List.cons.inj ht
      rw [primary?_of_openParen opening.property] at h'
      cases h'
    | unary t' op' h' operand' =>
      obtain ⟨rfl, -⟩ := List.cons.inj ht
      rw [unaryOp?_of_openParen opening.property] at h'
      cases h'
    | group opening' inner' closing' =>
      simp only [Phrase.tokens, List.cons_append, List.append_assoc, List.nil_append] at ht
      obtain ⟨ho, hin⟩ := List.cons.inj ht
      obtain ⟨rfl, hcl⟩ := inner.unique inner' hin (clear_closeParen closing r)
        (clear_closeParen closing' r')
      obtain ⟨hc, rfl⟩ := List.cons.inj hcl
      rw [Subtype.ext ho, Subtype.ext hc]
      exact ⟨rfl, rfl⟩
  | _, .chain first rest, d', r, r', ht, hr, hr' => by
    cases d' with
    | chain first' rest' =>
      simp only [Phrase.tokens, List.append_assoc] at ht
      obtain ⟨rfl, hrest⟩ := first.unique first' ht (rest.clear hr) (rest'.clear hr')
      obtain ⟨rfl, rfl⟩ := rest.unique rest' hrest hr hr'
      exact ⟨rfl, rfl⟩

theorem Tail.unique : {k : Nat} → (d d' : Tail k) → {r r' : List Token} →
    d.tokens ++ r = d'.tokens ++ r' → Clear (k + 1) r → Clear (k + 1) r' → d = d' ∧ r = r'
  | k, .nil, d', r, r', ht, hr, _ => by
    cases d' with
    | nil => exact ⟨rfl, ht⟩
    | cons t op h right rest =>
      have hn := hr t (by rw [show r = _ from ht]; rfl) k (by omega)
      rw [h] at hn
      cases hn
  | k, .cons t op h right rest, d', r, r', ht, hr, hr' => by
    cases d' with
    | nil =>
      have hn := hr' t (by rw [show r' = _ from ht.symm]; rfl) k (by omega)
      rw [h] at hn
      cases hn
    | cons t' op' h' right' rest' =>
      simp only [Tail.tokens, List.cons_append, List.append_assoc] at ht
      obtain ⟨rfl, hright⟩ := List.cons.inj ht
      rw [h] at h'
      cases h'
      obtain ⟨rfl, hrest⟩ := right.unique right' hright (rest.clear hr) (rest'.clear hr')
      obtain ⟨rfl, rfl⟩ := rest.unique rest' hrest hr hr'
      exact ⟨rfl, rfl⟩

end

end AgentScript.Grammar

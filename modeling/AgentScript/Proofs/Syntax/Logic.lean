import AgentScript.Proofs.Machine.Blame
import AgentScript.Proofs.Machine.Kinds

/-! Logic with failures. Both operands of a connective are evaluated, the left one first, so that
the laws of Boolean algebra hold of whole evaluations: if one side fails, so does the other, with the
same error at the same place. -/
namespace AgentScript

theorem located_eq_error {α : Type} {l : Location} {r : Except Trouble α} {t : Trouble}
    (h : located l r = .error t) : ∃ t', r = .error t' ∧ t = t'.locate l := by
  cases r with
  | ok a => cases h
  | error t' =>
    cases h
    exact ⟨t', rfl, rfl⟩

/-- Trouble that keeps the place that it has, or never gets one. -/
def Trouble.Settled (t : Trouble) : Prop := ∀ l, t.locate l = t

theorem ScriptError.settled {e : ScriptError} (h : e.hasPosition = true) :
    (Trouble.error e).Settled := fun l => by
  rw [Trouble.locate, locate, if_pos h]

theorem ScriptError.settled_locatedAt (cause : Cause) {l : Location} (h : 0 < l.line) :
    (Trouble.error (.locatedAt cause l)).Settled :=
  settled (decide_eq_true h)

theorem Trouble.settled_locate (t : Trouble) {l : Location} (h : 0 < l.line) :
    (t.locate l).Settled := by
  cases t with
  | fault f => exact fun _ => rfl
  | error e =>
    by_cases hp : e.hasPosition = true
    · rw [locate, ScriptError.locate, if_pos hp]
      exact ScriptError.settled hp
    · rw [locate, ScriptError.locate, if_neg hp]
      exact ScriptError.settled_locatedAt e.cause h

abbrev Truth := Except Trouble Bool

namespace Truth

def neg (x : Truth) : Truth := do
  let p ← x
  return !p

def conj (x y : Truth) : Truth := do
  let p ← x
  let q ← y
  return p && q

def disj (x y : Truth) : Truth := do
  let p ← x
  let q ← y
  return p || q

variable (x y z : Truth)

theorem neg_conj : neg (conj x y) = disj (neg x) (neg y) := by
  cases x with
  | error t => rfl
  | ok p =>
    cases y with
    | error t => rfl
    | ok q => exact congrArg Except.ok (Bool.not_and p q)

theorem neg_disj : neg (disj x y) = conj (neg x) (neg y) := by
  cases x with
  | error t => rfl
  | ok p =>
    cases y with
    | error t => rfl
    | ok q => exact congrArg Except.ok (Bool.not_or p q)

theorem conj_assoc : conj (conj x y) z = conj x (conj y z) := by
  cases x with
  | error t => rfl
  | ok p =>
    cases y with
    | error t => rfl
    | ok q =>
      cases z with
      | error t => rfl
      | ok r => exact congrArg Except.ok (Bool.and_assoc p q r)

theorem disj_assoc : disj (disj x y) z = disj x (disj y z) := by
  cases x with
  | error t => rfl
  | ok p =>
    cases y with
    | error t => rfl
    | ok q =>
      cases z with
      | error t => rfl
      | ok r => exact congrArg Except.ok (Bool.or_assoc p q r)

theorem disj_self : disj x x = x := by
  cases x with
  | error t => rfl
  | ok p => exact congrArg Except.ok (Bool.or_self p)

end Truth

namespace Expr

/-- An expression whose trouble, if it has no value, keeps its place. -/
def Settles (context : Context) (e : Expr) : Prop := ∀ t, e.eval context = .error t → t.Settled

def truth (context : Context) (e : Expr) : Truth := Value.truthy <$> e.eval context

/-- What a test of two values says of the values of two expressions, found in turn. -/
def test (context : Context) (g : Value → Value → Bool) (a b : Expr) : Truth := do
  let v ← a.eval context
  let w ← b.eval context
  return g v w

variable {context : Context} {a b c : Expr}

/-- An expression that stands on a line of a source gives its errors a place, unless they have one
from within. -/
theorem settles_of_line (context : Context) (h : 0 < a.loc.line) : a.Settles context := by
  intro t ht
  cases a with
  | number | string | boolean => cases ht
  | reference l name =>
    obtain ⟨t', -, rfl⟩ := located_eq_error ht
    exact t'.settled_locate h
  | binary l op left right =>
    obtain ⟨t', -, rfl⟩ := located_eq_error ht
    exact t'.settled_locate h
  | unary l op operand =>
    obtain ⟨t', -, rfl⟩ := located_eq_error ht
    exact t'.settled_locate h
  | misfit tree =>
    cases ht
    change 0 < (tree.nodeLocation?.getD ⟨0, 0⟩).line at h
    unfold Json.noValue
    cases hl : tree.nodeLocation? with
    | none => exact fun _ => rfl
    | some l =>
      rw [hl] at h
      exact ScriptError.settled_locatedAt _ h

theorem truth_of_eval {r : Truth} (h : a.eval context = Value.boolean <$> r) :
    a.truth context = r := by
  rw [truth, h]
  cases r <;> rfl

theorem test_truthy (f : Bool → Bool → Bool) :
    test context (fun v w => f v.truthy w.truthy) a b = (do
      let p ← a.truth context
      let q ← b.truth context
      return f p q) := by
  unfold test truth
  cases a.eval context with
  | error t => rfl
  | ok v => cases b.eval context <;> rfl

namespace Settles

/-- An operator that takes all values fails only if an operand does, and then with the same trouble,
wherever it stands itself. -/
theorem eval_test {op : BinaryOp} {g : Value → Value → Bool}
    (hop : ∀ v w, op.apply v w = .ok (.boolean (g v w))) (ha : a.Settles context)
    (hb : b.Settles context) (l : Location) :
    (binary l op a b).eval context = Value.boolean <$> test context g a b := by
  unfold test
  cases hv : a.eval context with
  | error t => exact (eval_binary_left hv).trans (congrArg Except.error (ha t hv l))
  | ok v =>
    cases hw : b.eval context with
    | error t => exact (eval_binary_right hv hw).trans (congrArg Except.error (hb t hw l))
    | ok w =>
      rw [eval_binary hv hw, hop]
      rfl

theorem eval_not (ha : a.Settles context) (l : Location) :
    (unary l .not a).eval context = Value.boolean <$> (a.truth context).neg := by
  unfold truth
  cases hv : a.eval context with
  | error t => exact (eval_unary_operand hv).trans (congrArg Except.error (ha t hv l))
  | ok v =>
    rw [eval_unary hv]
    rfl

theorem eval_and (ha : a.Settles context) (hb : b.Settles context) (l : Location) :
    (binary l .and a b).eval context =
      Value.boolean <$> (a.truth context).conj (b.truth context) :=
  (ha.eval_test (fun _ _ => rfl) hb l).trans (congrArg _ (test_truthy and))

theorem eval_or (ha : a.Settles context) (hb : b.Settles context) (l : Location) :
    (binary l .or a b).eval context =
      Value.boolean <$> (a.truth context).disj (b.truth context) :=
  (ha.eval_test (fun _ _ => rfl) hb l).trans (congrArg _ (test_truthy or))

theorem test {op : BinaryOp} {g : Value → Value → Bool}
    (hop : ∀ v w, op.apply v w = .ok (.boolean (g v w))) (ha : a.Settles context)
    (hb : b.Settles context) (l : Location) : (binary l op a b).Settles context := by
  intro t ht
  rw [ha.eval_test hop hb] at ht
  obtain ⟨t', ht', rfl⟩ : ∃ t', Expr.test context g a b = .error t' ∧ t = t' := by
    cases hr : Expr.test context g a b with
    | ok p =>
      rw [hr] at ht
      cases ht
    | error t' =>
      rw [hr] at ht
      cases ht
      exact ⟨t, rfl, rfl⟩
  rcases bind_eq_error ht' with ht' | ⟨v, -, ht'⟩
  · exact ha t ht'
  · rcases bind_eq_error ht' with ht' | ⟨w, -, ht'⟩
    · exact hb t ht'
    · cases ht'

theorem not (ha : a.Settles context) (l : Location) : (unary l .not a).Settles context := by
  intro t ht
  rw [eval] at ht
  obtain ⟨t', ht', rfl⟩ := located_eq_error ht
  rcases bind_eq_error ht' with ht' | ⟨v, -, ht'⟩
  · rw [ha t' ht' l]
    exact ha t' ht'
  · cases ht'

end Settles

/-- Two expressions come to the same truth, or to the very same error. -/
def Equivalent (context : Context) (e e' : Expr) : Prop :=
  (∃ p, e.eval context = .ok (.boolean p) ∧ e'.eval context = .ok (.boolean p)) ∨
    ∃ t, e.eval context = .error t ∧ e'.eval context = .error t

theorem equivalent_of_eval {e e' : Expr} {x y : Truth} (h : e.eval context = Value.boolean <$> x)
    (h' : e'.eval context = Value.boolean <$> y) (hxy : x = y) : Equivalent context e e' := by
  subst hxy
  rw [Equivalent, h, h']
  cases x with
  | ok p => exact .inl ⟨p, rfl, rfl⟩
  | error t => exact .inr ⟨t, rfl, rfl⟩

/-- A connective evaluates both operands, whatever the first one comes to: it fails if one of them
does, with the error of the first that does, and else makes a truth of what they count as. -/
structure Eager (context : Context) (op : BinaryOp) (f : Bool → Bool → Bool) (a b : Expr) :
    Prop where
  fails : ∀ l t, (binary l op a b).eval context = .error t ↔ a.eval context = .error t ∨
    (∃ v, a.eval context = .ok v) ∧ b.eval context = .error t
  holds : ∀ l v w, a.eval context = .ok v → b.eval context = .ok w →
    (binary l op a b).eval context = .ok (.boolean (f v.truthy w.truthy))

theorem Settles.eager {op : BinaryOp} {f : Bool → Bool → Bool}
    (hop : ∀ v w, op.apply v w = .ok (.boolean (f v.truthy w.truthy))) (ha : a.Settles context)
    (hb : b.Settles context) : Eager context op f a b where
  fails l t := by
    rw [ha.eval_test hop hb, Expr.test]
    cases a.eval context with
    | error t' =>
      constructor
      · rintro ⟨⟩
        exact .inl rfl
      · rintro (⟨⟨⟩⟩ | ⟨⟨v, ⟨⟩⟩, -⟩)
        rfl
    | ok v =>
      cases b.eval context with
      | error t' =>
        constructor
        · rintro ⟨⟩
          exact .inr ⟨⟨v, rfl⟩, rfl⟩
        · rintro (⟨⟨⟩⟩ | ⟨-, ⟨⟩⟩)
          rfl
      | ok w =>
        constructor
        · rintro ⟨⟩
        · rintro (⟨⟨⟩⟩ | ⟨-, ⟨⟩⟩)
  holds l v w hv hw := by
    rw [ha.eval_test hop hb, Expr.test, hv, hw]
    rfl

theorem Parsed.line_pos {e : Expr} (h : e.Parsed) : 0 < e.loc.line := by
  obtain ⟨source, ho⟩ := h.over
  exact ho.loc.positive.1

/-- Logic is eager and obeys Boolean algebra, errors and their places included. The operands are any
expressions that stand on a line of a source, as all that are parsed do; where the connectives stand
makes no difference. -/
theorem logic_eager (context : Context) {a b c : Expr} (ha : 0 < a.loc.line)
    (hb : 0 < b.loc.line) (hc : 0 < c.loc.line) :
    (∀ e : Expr, e.Parsed → 0 < e.loc.line) ∧
    Eager context .and Bool.and a b ∧ Eager context .or Bool.or a b ∧
    ∀ l₁ l₂ l₃ l₄ l₅ : Location,
      Equivalent context (unary l₁ .not (binary l₂ .and a b))
        (binary l₃ .or (unary l₄ .not a) (unary l₅ .not b)) ∧
      Equivalent context (unary l₁ .not (binary l₂ .or a b))
        (binary l₃ .and (unary l₄ .not a) (unary l₅ .not b)) ∧
      Equivalent context (binary l₁ .and (binary l₂ .and a b) c)
        (binary l₃ .and a (binary l₄ .and b c)) ∧
      Equivalent context (binary l₁ .or (binary l₂ .or a b) c)
        (binary l₃ .or a (binary l₄ .or b c)) ∧
      Equivalent context (binary l₁ .and a (binary l₂ .or b b)) (binary l₃ .and a b) ∧
      Equivalent context (binary l₁ .notEqual a b) (unary l₂ .not (binary l₃ .equal a b)) := by
  have ha := settles_of_line context ha
  have hb := settles_of_line context hb
  have hc := settles_of_line context hc
  have settles_and {x y : Expr} (hx : x.Settles context) (hy : y.Settles context) (l : Location) :
      (binary l .and x y).Settles context := hx.test (fun _ _ => rfl) hy l
  have settles_or {x y : Expr} (hx : x.Settles context) (hy : y.Settles context) (l : Location) :
      (binary l .or x y).Settles context := hx.test (fun _ _ => rfl) hy l
  refine ⟨fun e he => he.line_pos, ha.eager (fun _ _ => rfl) hb, ha.eager (fun _ _ => rfl) hb,
    fun l₁ l₂ l₃ l₄ l₅ => ⟨?_, ?_, ?_, ?_, ?_, ?_⟩⟩
  · refine equivalent_of_eval ((settles_and ha hb l₂).eval_not l₁)
      ((ha.not l₄).eval_or (hb.not l₅) l₃) ?_
    rw [truth_of_eval (ha.eval_and hb l₂), truth_of_eval (ha.eval_not l₄),
      truth_of_eval (hb.eval_not l₅), Truth.neg_conj]
  · refine equivalent_of_eval ((settles_or ha hb l₂).eval_not l₁)
      ((ha.not l₄).eval_and (hb.not l₅) l₃) ?_
    rw [truth_of_eval (ha.eval_or hb l₂), truth_of_eval (ha.eval_not l₄),
      truth_of_eval (hb.eval_not l₅), Truth.neg_disj]
  · refine equivalent_of_eval ((settles_and ha hb l₂).eval_and hc l₁)
      (ha.eval_and (settles_and hb hc l₄) l₃) ?_
    rw [truth_of_eval (ha.eval_and hb l₂), truth_of_eval (hb.eval_and hc l₄), Truth.conj_assoc]
  · refine equivalent_of_eval ((settles_or ha hb l₂).eval_or hc l₁)
      (ha.eval_or (settles_or hb hc l₄) l₃) ?_
    rw [truth_of_eval (ha.eval_or hb l₂), truth_of_eval (hb.eval_or hc l₄), Truth.disj_assoc]
  · refine equivalent_of_eval (ha.eval_and (settles_or hb hb l₂) l₁) (ha.eval_and hb l₃) ?_
    rw [truth_of_eval (hb.eval_or hb l₂), Truth.disj_self]
  · refine equivalent_of_eval (ha.eval_test (fun _ _ => rfl) hb l₁)
      ((ha.test (fun _ _ => rfl) hb l₃).eval_not l₂) ?_
    rw [truth_of_eval (ha.eval_test (fun _ _ => rfl) hb l₃)]
    unfold Expr.test
    cases a.eval context with
    | error t => rfl
    | ok v => cases b.eval context <;> rfl

/-- The second operand is evaluated although the first one decides, and its error is the same
through both sides of a law. -/
theorem logic_eager_division :
    let a : Expr := .boolean ⟨1, 6⟩ false
    let b : Expr := .binary ⟨1, 18⟩ .divide (.number ⟨1, 16⟩ 1) (.number ⟨1, 20⟩ 0)
    let c : Expr := .reference ⟨1, 30⟩ (.word "missing")
    let context := Context.fresh "" "" 0
    (0 < a.loc.line ∧ 0 < b.loc.line ∧ 0 < c.loc.line) ∧
    (binary ⟨1, 12⟩ .and a b).eval context =
      .error (.error (.locatedAt .divisionByZero ⟨1, 18⟩)) ∧
    Equivalent context (binary ⟨1, 24⟩ .and (binary ⟨1, 12⟩ .and a b) c)
      (binary ⟨1, 12⟩ .and a (binary ⟨1, 24⟩ .and b c)) := by
  intro a b c context
  have hlines : 0 < a.loc.line ∧ 0 < b.loc.line ∧ 0 < c.loc.line := by decide
  obtain ⟨ha, hb, hc⟩ := hlines
  obtain ⟨-, hand, -, hlaws⟩ := logic_eager context ha hb hc
  refine ⟨⟨ha, hb, hc⟩, (hand.fails _ _).mpr (.inr ⟨⟨_, rfl⟩, ?_⟩), ?_⟩
  · rfl
  · exact (hlaws ⟨1, 24⟩ ⟨1, 12⟩ ⟨1, 12⟩ ⟨1, 24⟩ .start).2.2.1

end Expr

end AgentScript

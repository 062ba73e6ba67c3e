import AgentScript.Proofs.Syntax.Places

/-! Kinds of values. Which kind of value an expression has, or which error, depends on its variables
by their kinds alone, divisions by zero aside: it is read off the expression without evaluating it. -/
namespace AgentScript

namespace BinaryOp

def kindOnNumbers (op : BinaryOp) (a b result : Kind) : Except Cause Kind :=
  if a = .number ∧ b = .number then .ok result else .error (.operands op a b)

def kindOf (op : BinaryOp) (a b : Kind) : Except Cause Kind :=
  match op with
  | add => .ok (if a = .number ∧ b = .number then .number else .string)
  | subtract | multiply | divide => op.kindOnNumbers a b .number
  | less | greater | lessEqual | greaterEqual => op.kindOnNumbers a b .boolean
  | equal | notEqual | and | or => .ok .boolean

end BinaryOp

def UnaryOp.kindOf (op : UnaryOp) (a : Kind) : Except Cause Kind :=
  match op, a with
  | not, _ => .ok .boolean
  | negate, .number => .ok .number
  | negate, a => .error (.operand a)

def Context.kind? (c : Context) (name : String) : Option Kind :=
  (c.lookup? name).map (·.value.kind)

/-- The kinds of the built-in variables. -/
theorem Context.kind?_fresh (botName version : String) (now : Float) (name : String) :
    (fresh botName version now).kind? name =
      if name = "bot_name" ∨ name = "version" then some .string
      else if name = "pi" ∨ name = "timestamp" then some .number else none := by
  simp only [kind?, lookup?, frames, fresh, systemBinding, Frame.find?, List.nil_append,
    List.findSome?_cons, List.findSome?_nil, List.find?_cons, List.find?_nil]
  by_cases hb : "bot_name" = name
  · simp [← hb, Value.kind]
  by_cases hv : "version" = name
  · simp [← hv, Value.kind]
  by_cases hp : "pi" = name
  · simp [← hp, Value.kind]
  by_cases ht : "timestamp" = name
  · simp [← ht, Value.kind]
  simp [hb, hv, hp, ht, Ne.symm hb, Ne.symm hv, Ne.symm hp, Ne.symm ht]

def Label.kindIn (kinds : String → Option Kind) (name : Label) : Except Trouble Kind := do
  let key ← name.key.mapError .fault
  match kinds key with
  | some k => .ok k
  | none => .error (Cause.undefined name.text).trouble

/-- The kind of an expression, or its error, where each name has the kind that is given. -/
def Expr.kindIn (kinds : String → Option Kind) : Expr → Except Trouble Kind
  | number .. => .ok .number
  | string .. => .ok .string
  | boolean .. => .ok .boolean
  | reference l name => located l (name.kindIn kinds)
  | binary l op left right => located l do
    let a ← left.kindIn kinds
    let b ← right.kindIn kinds
    (op.kindOf a b).mapError Cause.trouble
  | unary l op operand => located l do
    let a ← operand.kindIn kinds
    (op.kindOf a).mapError Cause.trouble
  | misfit tree => .error tree.noValue

def DividesByZero (r : Except Trouble Value) : Prop :=
  ∃ e : ScriptError, r = .error (.error e) ∧ e.cause.kind = .divisionByZero

/-- An evaluation has the kind or the error that was inferred, unless it divides by zero. -/
def Sorted (r : Except Trouble Value) (s : Except Trouble Kind) : Prop :=
  DividesByZero r ∨ r.map Value.kind = s

namespace Sorted

variable {r : Except Trouble Value} {s : Except Trouble Kind}

theorem located (h : Sorted r s) (l : Location) : Sorted (located l r) (located l s) := by
  rcases h with ⟨e, rfl, hc⟩ | rfl
  · refine .inl ⟨e.locate l, rfl, ?_⟩
    rw [ScriptError.cause_locate, hc]
  · right
    cases r <;> rfl

theorem bind {f : Value → Except Trouble Value} {g : Kind → Except Trouble Kind} (h : Sorted r s)
    (hf : ∀ v, Sorted (f v) (g v.kind)) : Sorted (r >>= f) (s >>= g) := by
  rcases h with ⟨e, rfl, hc⟩ | rfl
  · exact .inl ⟨e, rfl, hc⟩
  · cases r with
    | error t => exact .inr rfl
    | ok v => exact hf v

/-- The same step before the evaluation and before the inference. -/
theorem same {α : Type} {f : α → Except Trouble Value} {g : α → Except Trouble Kind}
    (x : Except Trouble α) (h : ∀ a, Sorted (f a) (g a)) : Sorted (x >>= f) (x >>= g) := by
  cases x with
  | error t => exact .inr rfl
  | ok a => exact h a

end Sorted

theorem BinaryOp.sorted_onNumbers (op : BinaryOp) (a b : Value) (result : Kind)
    {f : Float → Float → Except Cause Value}
    (hf : ∀ x y, Sorted ((f x y).mapError Cause.trouble) (.ok result)) :
    Sorted ((op.onNumbers a b f).mapError Cause.trouble)
      ((op.kindOnNumbers a.kind b.kind result).mapError Cause.trouble) := by
  cases a <;> cases b
  case number.number x y => exact hf x y
  all_goals exact .inr rfl

theorem BinaryOp.sorted_apply (op : BinaryOp) (a b : Value) :
    Sorted ((op.apply a b).mapError Cause.trouble)
      ((op.kindOf a.kind b.kind).mapError Cause.trouble) := by
  have total (result : Kind) {f : Float → Float → Value} (hf : ∀ x y, (f x y).kind = result) :
      Sorted ((op.onNumbers a b fun x y => .ok (f x y)).mapError Cause.trouble)
        ((op.kindOnNumbers a.kind b.kind result).mapError Cause.trouble) :=
    sorted_onNumbers op a b result fun x y => .inr (congrArg Except.ok (hf x y))
  cases op with
  | add => cases a <;> cases b <;> exact .inr rfl
  | subtract | multiply => exact total .number fun _ _ => rfl
  | divide =>
    refine sorted_onNumbers .divide a b .number fun x y => ?_
    by_cases hy : y == 0
    · rw [if_pos hy]
      exact .inl ⟨_, rfl, rfl⟩
    · rw [if_neg hy]
      exact .inr rfl
  | less | greater | lessEqual | greaterEqual => exact total .boolean fun _ _ => rfl
  | equal | notEqual | and | or => exact .inr rfl

theorem UnaryOp.sorted_apply (op : UnaryOp) (a : Value) :
    Sorted ((op.apply a).mapError Cause.trouble) ((op.kindOf a.kind).mapError Cause.trouble) := by
  cases op <;> cases a <;> exact .inr rfl

theorem Context.sorted_read (c : Context) (name : Label) :
    Sorted (c.read name) (name.kindIn c.kind?) := by
  refine .same (name.key.mapError .fault) fun key => ?_
  unfold Context.kind?
  cases c.lookup? key with
  | some b => exact .inr rfl
  | none => exact .inr rfl

/-- The kind of an expression, or its error, is the inferred one. -/
theorem Expr.sorted_eval (c : Context) (e : Expr) : Sorted (e.eval c) (e.kindIn c.kind?) := by
  induction e with
  | number | string | boolean | misfit => exact .inr rfl
  | reference l name => exact (c.sorted_read name).located l
  | binary l op left right ihl ihr =>
    exact (ihl.bind fun a => ihr.bind fun b => op.sorted_apply a b).located l
  | unary l op operand ih => exact (ih.bind fun a => op.sorted_apply a).located l

/-! Expressions of a program. -/

mutual

def Stmt.expressions : Stmt → List Expr
  | .declare _ _ e | .assign _ _ e | .evaluate _ e => [e]
  | .branch _ condition yes none => condition :: yes.expressions
  | .branch _ condition yes (some no) => condition :: (yes.expressions ++ no.expressions)
  | .loop _ count body => count :: body.expressions
  | .command _ c => c.arguments
  | .misfit _ => []

def Body.expressions : Body → List Expr
  | .statements list => Stmt.expressionsOf list
  | .misfit _ => []

def Stmt.expressionsOf : List Stmt → List Expr
  | [] => []
  | s :: rest => s.expressions ++ Stmt.expressionsOf rest

end

def Program.expressions : Program → List Expr
  | .program _ body => body.expressions
  | .misfit _ => []

def Expr.parts : Expr → List Expr
  | binary l op left right => binary l op left right :: (left.parts ++ right.parts)
  | unary l op operand => unary l op operand :: operand.parts
  | e => [e]

def Expr.Parsed (e : Expr) : Prop :=
  ∃ source p, Program.ofSource source = .ok p ∧ ∃ whole ∈ p.expressions, e ∈ whole.parts

section Over

variable {P : Location → Prop}

mutual

theorem Stmt.Over.expressions {s : Stmt} (h : s.Over P) : ∀ e ∈ s.expressions, e.Over P := by
  cases h with
  | declare _ _ he | assign _ _ he | evaluate _ he =>
    intro e hm
    rwa [List.mem_singleton.mp hm]
  | @branch _ _ condition he yes hy no hn =>
    have hyes := hy.expressions
    cases no with
    | none => exact List.forall_mem_cons.mpr ⟨he, hyes⟩
    | some no =>
      have hno := (hn no rfl).expressions
      exact List.forall_mem_cons.mpr ⟨he, List.forall_mem_append.mpr ⟨hyes, hno⟩⟩
  | loop _ he hb => exact List.forall_mem_cons.mpr ⟨he, hb.expressions⟩
  | command _ hc => exact hc.arguments

theorem Body.Over.expressions {body : Body} (h : body.Over P) :
    ∀ e ∈ body.expressions, e.Over P := by
  cases h with
  | statements h => exact Stmt.over_expressionsOf h

theorem Stmt.over_expressionsOf {list : List Stmt} (h : ∀ s ∈ list, s.Over P) :
    ∀ e ∈ Stmt.expressionsOf list, e.Over P := by
  cases list with
  | nil => exact fun _ hm => nomatch hm
  | cons s rest =>
    have hs := (h s (by simp)).expressions
    have hrest := Stmt.over_expressionsOf fun t ht => h t (List.mem_cons_of_mem s ht)
    exact List.forall_mem_append.mpr ⟨hs, hrest⟩

end

theorem Expr.Over.parts {e : Expr} (h : e.Over P) : ∀ part ∈ e.parts, part.Over P := by
  have self {e part : Expr} (h : e.Over P) (hm : part ∈ [e]) : part.Over P := by
    rwa [List.mem_singleton.mp hm]
  induction h with
  | number hl x => exact fun _ => self (.number hl x)
  | string hl s => exact fun _ => self (.string hl s)
  | boolean hl b => exact fun _ => self (.boolean hl b)
  | reference hl hn => exact fun _ => self (.reference hl hn)
  | binary hl op ha hb iha ihb =>
    exact List.forall_mem_cons.mpr ⟨.binary hl op ha hb, List.forall_mem_append.mpr ⟨iha, ihb⟩⟩
  | unary hl op h ih => exact List.forall_mem_cons.mpr ⟨.unary hl op h, ih⟩

end Over

theorem Expr.Parsed.over {e : Expr} (h : e.Parsed) : ∃ source, e.Over (·.InSource source) := by
  obtain ⟨source, p, hp, whole, hw, he⟩ := h
  cases Program.over_source hp with
  | program _ hb => exact ⟨source, (hb.expressions whole hw).parts e he⟩

/-- The errors that kinds lead to: a name that means nothing, and operands that an operator does not
take. -/
def Trouble.IsMismatch (t : Trouble) : Prop :=
  ∃ e : ScriptError, t = .error e ∧ (e.cause.kind = .undefined ∨ e.cause.kind = .typeMismatch)

/-- An inference that fails for a mismatch, if it does. -/
def Inferable (s : Except Trouble Kind) : Prop := ∀ t, s = .error t → t.IsMismatch

namespace Inferable

variable {s : Except Trouble Kind}

theorem ok (k : Kind) : Inferable (.ok k) := fun _ h => nomatch h

theorem located (h : Inferable s) (l : Location) : Inferable (located l s) := by
  intro t ht
  cases s with
  | ok k => cases ht
  | error t =>
    obtain ⟨e, rfl, hc⟩ := h t rfl
    cases ht
    refine ⟨e.locate l, rfl, ?_⟩
    rwa [ScriptError.cause_locate]

theorem bind {g : Kind → Except Trouble Kind} (h : Inferable s) (hg : ∀ k, Inferable (g k)) :
    Inferable (s >>= g) := by
  intro t ht
  rcases bind_eq_error ht with ht | ⟨k, -, ht⟩
  · exact h t ht
  · exact hg k t ht

end Inferable

theorem BinaryOp.inferable_kindOf (op : BinaryOp) (a b : Kind) :
    Inferable ((op.kindOf a b).mapError Cause.trouble) := by
  have onNumbers (result : Kind) :
      Inferable ((op.kindOnNumbers a b result).mapError Cause.trouble) := by
    unfold kindOnNumbers
    split
    · exact .ok result
    · rintro t ⟨⟩
      exact ⟨_, rfl, .inr rfl⟩
  cases op with
  | add | equal | notEqual | and | or => exact .ok _
  | subtract | multiply | divide | less | greater | lessEqual | greaterEqual => exact onNumbers _

theorem UnaryOp.inferable_kindOf (op : UnaryOp) (a : Kind) :
    Inferable ((op.kindOf a).mapError Cause.trouble) := by
  cases op <;> cases a
  case negate.string | negate.boolean =>
    rintro t ⟨⟩
    exact ⟨_, rfl, .inr rfl⟩
  all_goals exact .ok _

theorem Label.IsWord.inferable_kindIn {name : Label} (h : name.IsWord)
    (kinds : String → Option Kind) : Inferable (name.kindIn kinds) := by
  cases h with
  | word name =>
    intro t ht
    obtain ⟨key, -, ht⟩ := (bind_eq_error ht).resolve_left fun hkey => nomatch hkey
    split at ht
    · cases ht
    · cases ht
      exact ⟨_, rfl, .inl rfl⟩

/-- In a proper tree, only a mismatch leaves an expression without a kind. -/
theorem Expr.Over.inferable_kindIn {P : Location → Prop} {e : Expr} (h : e.Over P)
    (kinds : String → Option Kind) : Inferable (e.kindIn kinds) := by
  induction h with
  | number | string | boolean => exact .ok _
  | @reference l _ name hn => exact (hn.inferable_kindIn kinds).located l
  | @binary l _ op left right _ _ ihl ihr =>
    exact (ihl.bind fun a => ihr.bind fun b => op.inferable_kindOf a b).located l
  | @unary l _ op operand _ ih => exact (ih.bind fun a => op.inferable_kindOf a).located l

/-- In contexts that agree on which names mean something and on their kinds, an expression has values
of one kind, or fails in the same way, unless it divides by zero in one of them. Of the errors of a
parsed expression there are three. -/
theorem Expr.kinds_static (e : Expr) :
    (∀ c c' : Context, (∀ name, c.kind? name = c'.kind? name) →
      ¬ DividesByZero (e.eval c) → ¬ DividesByZero (e.eval c') →
      (∃ v v', e.eval c = .ok v ∧ e.eval c' = .ok v' ∧ v.kind = v'.kind) ∨
        ∃ t, e.eval c = .error t ∧ e.eval c' = .error t) ∧
    (e.Parsed → ∀ c, (∃ v, e.eval c = .ok v) ∨
      ∃ error : ScriptError, e.eval c = .error (.error error) ∧
        error.cause.kind ∈ [.undefined, .typeMismatch, .divisionByZero]) := by
  constructor
  · intro c c' hk hz hz'
    have hs := (e.sorted_eval c).resolve_left hz
    have hs' := (e.sorted_eval c').resolve_left hz'
    rw [← funext hk, ← hs] at hs'
    cases hv : e.eval c with
    | ok v =>
      rw [hv] at hs'
      obtain ⟨v', hv', hkind⟩ := map_eq_ok hs'
      exact .inl ⟨v, v', rfl, hv', hkind.symm⟩
    | error t =>
      rw [hv] at hs'
      cases hv' : e.eval c' with
      | ok v' =>
        rw [hv'] at hs'
        cases hs'
      | error t' =>
        rw [hv'] at hs'
        cases hs'
        exact .inr ⟨t, rfl, rfl⟩
  · intro he c
    obtain ⟨source, ho⟩ := he.over
    rcases e.sorted_eval c with ⟨error, hv, hc⟩ | hs
    · exact .inr ⟨error, hv, by simp [hc]⟩
    · cases hv : e.eval c with
      | ok v => exact .inl ⟨v, rfl⟩
      | error t =>
        rw [hv] at hs
        obtain ⟨error, rfl, hc⟩ := ho.inferable_kindIn c.kind? t hs.symm
        refine .inr ⟨error, rfl, ?_⟩
        rcases hc with hc | hc <;> simp [hc]

/-- The sign of a name is refused in the same way whatever the name is. -/
theorem Expr.kinds_static_sign :
    let e : Expr := .unary ⟨1, 1⟩ .negate (.reference ⟨1, 2⟩ (.word "bot_name"))
    let c := Context.fresh "Rob" "1.0" 0
    let c' := Context.fresh "Bob" "2.0" 1
    (∃ t, e.eval c = .error t ∧ e.eval c' = .error t) ∧
      ∃ error : ScriptError, e.eval c = .error (.error error) ∧
        error.cause.kind ∈ [.undefined, .typeMismatch, .divisionByZero] := by
  intro e c c'
  have hk : ∀ name, c.kind? name = c'.kind? name := by
    intro name
    rw [Context.kind?_fresh, Context.kind?_fresh]
  have hz {c : Context} (h : e.eval c = .error (.error (.locatedAt (.operand .string) ⟨1, 1⟩))) :
      ¬ DividesByZero (e.eval c) := by
    rintro ⟨error, he, hc⟩
    rw [h] at he
    cases he
    cases hc
  have hp : Program.ofSource "-bot_name" = .ok (.ofStatements [.evaluate ⟨1, 1⟩ e]) := by
    with_unfolding_all rfl
  have he : e.Parsed := ⟨_, _, hp, e, List.mem_singleton_self e, List.mem_cons_self⟩
  constructor
  · refine ((kinds_static e).1 c c' hk (hz rfl) (hz rfl)).resolve_left ?_
    rintro ⟨v, _, hv, -⟩
    cases hv
  · refine ((kinds_static e).2 he c).resolve_left ?_
    rintro ⟨v, hv⟩
    cases hv

end AgentScript

import AgentScript.Proofs.Machine.Cause
import AgentScript.Proofs.Syntax.Proper

/-! Blame: why an expression fails, and the places of the constructs around the failure. The first of
them that is a place in a source is the one that the message names. -/
namespace AgentScript

/-- A place as a message shows it. -/
structure Mark where
  line : Int
  column : Option Int
deriving DecidableEq, Repr

namespace Location

def mark (l : Location) : Mark := ⟨l.line, some l.column⟩

/-- The place of a definition that is refused. A column of zero gets lost. -/
def refusalMark (l : Location) : Mark := ⟨l.line, if l.column = 0 then none else some l.column⟩

end Location

/-- The cause of a failure, and the places of the constructs around it, innermost first. -/
structure Blame where
  cause : Cause
  path : List Mark
deriving DecidableEq, Repr

namespace Blame

/-- A construct fails by itself. -/
def on (cause : Cause) (l : Location) : Blame := ⟨cause, [l.mark]⟩

/-- A construct fails because one inside of it does. -/
def within (b : Blame) (l : Location) : Blame := ⟨b.cause, b.path ++ [l.mark]⟩

/-- The innermost place that is one in a source. -/
def place? (b : Blame) : Option Mark := b.path.find? (0 < ·.line)

def text (b : Blame) : String :=
  match b.place? with
  | some mark =>
    "Execution error at line " ++ toString mark.line ++ ", column "
      ++ (match mark.column with | some c => toString c | none => "None") ++ ": " ++ b.cause.message
  | none => "Execution error: " ++ b.cause.message

end Blame

namespace ScriptError

def mark? (e : ScriptError) : Option Mark :=
  match e.line with
  | some line => if 0 < line then some ⟨line, e.column⟩ else none
  | none => none

theorem hasPosition_eq (e : ScriptError) : e.hasPosition = e.mark?.isSome := by
  unfold hasPosition mark?
  cases e.line with
  | none => rfl
  | some line =>
    by_cases h : 0 < line
    · simp [h]
    · simp [h]

theorem mark?_locate (e : ScriptError) (l : Location) :
    (e.locate l).mark? = e.mark?.or ([l.mark].find? (0 < ·.line)) := by
  unfold locate
  rw [hasPosition_eq]
  cases h : e.mark? with
  | some mark => rw [Option.isSome_some, if_pos rfl, h, Option.some_or]
  | none =>
    rw [Option.isSome_none, if_neg Bool.false_ne_true, Option.none_or]
    by_cases hl : 0 < l.line
    · simp [mark?, locatedAt, Location.mark, hl]
    · simp [mark?, locatedAt, Location.mark, hl]

end ScriptError

/-- An error tells what is to blame. -/
structure Blame.ToldBy (b : Blame) (e : ScriptError) : Prop where
  cause : e.cause = b.cause
  place : e.mark? = b.place?

namespace Blame.ToldBy

theorem locate {b : Blame} {e : ScriptError} (h : b.ToldBy e) (l : Location) :
    (b.within l).ToldBy (e.locate l) where
  cause := (ScriptError.cause_locate e l).trans h.cause
  place := by rw [ScriptError.mark?_locate, h.place, place?, place?, within, List.find?_append]

theorem fresh (cause : Cause) (l : Location) :
    (Blame.on cause l).ToldBy (ScriptError.locate { cause := cause } l) where
  cause := ScriptError.cause_locate _ l
  place := ScriptError.mark?_locate _ l

theorem locatedAt (cause : Cause) (l : Location) :
    (Blame.on cause l).ToldBy (.locatedAt cause l) := fresh cause l

theorem text_eq {b : Blame} {e : ScriptError} (h : b.ToldBy e)
    (hc : b.cause.kind.heading? = some "Execution error") : e.text = b.text := by
  have hp := h.place
  rw [← h.cause] at hc
  unfold ScriptError.text Blame.text
  rw [← hp, hc, h.cause]
  unfold ScriptError.mark?
  cases e.line with
  | none => rfl
  | some line =>
    have hplaced : "Execution error at line " = "Execution error" ++ " at line " := by decide
    have hplain : "Execution error: " = "Execution error" ++ ": " := by decide
    by_cases hl : 0 < line
    · cases e.column <;> simp only [hl, if_true, hplaced]
    · simp only [hl, if_false, hplain]

end Blame.ToldBy

namespace Expr

/-- An expression fails: for a name that means nothing, for operands that an operator does not take,
or because an operand fails. -/
inductive Fails (c : Context) : Expr → Blame → Prop
  | undefined {l : Location} {name : String} (h : c.lookup? name = none) :
    Fails c (.reference l (.word name)) (.on (.undefined name) l)
  | left {l : Location} {op : BinaryOp} {left right : Expr} {b : Blame} (h : Fails c left b) :
    Fails c (.binary l op left right) (b.within l)
  | right {l : Location} {op : BinaryOp} {left right : Expr} {v : Value} {b : Blame}
    (hv : left.eval c = .ok v) (h : Fails c right b) :
    Fails c (.binary l op left right) (b.within l)
  | operator {l : Location} {op : BinaryOp} {left right : Expr} {v w : Value} {cause : Cause}
    (hv : left.eval c = .ok v) (hw : right.eval c = .ok w) (h : op.apply v w = .error cause) :
    Fails c (.binary l op left right) (.on cause l)
  | operand {l : Location} {op : UnaryOp} {operand : Expr} {b : Blame} (h : Fails c operand b) :
    Fails c (.unary l op operand) (b.within l)
  | sign {l : Location} {op : UnaryOp} {operand : Expr} {v : Value} {cause : Cause}
    (hv : operand.eval c = .ok v) (h : op.apply v = .error cause) :
    Fails c (.unary l op operand) (.on cause l)

variable {c : Context}

theorem eval_binary_left {l : Location} {op : BinaryOp} {left right : Expr} {t : Trouble}
    (h : left.eval c = .error t) : (binary l op left right).eval c = .error (t.locate l) := by
  rw [eval, h]
  rfl

theorem eval_binary_right {l : Location} {op : BinaryOp} {left right : Expr} {v : Value}
    {t : Trouble} (hv : left.eval c = .ok v) (h : right.eval c = .error t) :
    (binary l op left right).eval c = .error (t.locate l) := by
  rw [eval, hv, h]
  rfl

theorem eval_binary {l : Location} {op : BinaryOp} {left right : Expr} {v w : Value}
    (hv : left.eval c = .ok v) (hw : right.eval c = .ok w) :
    (binary l op left right).eval c =
      located l ((op.apply v w).mapError Cause.trouble) := by
  rw [eval, hv, hw]
  rfl

theorem eval_unary_operand {l : Location} {op : UnaryOp} {operand : Expr} {t : Trouble}
    (h : operand.eval c = .error t) : (unary l op operand).eval c = .error (t.locate l) := by
  rw [eval, h]
  rfl

theorem eval_unary {l : Location} {op : UnaryOp} {operand : Expr} {v : Value}
    (hv : operand.eval c = .ok v) :
    (unary l op operand).eval c = located l ((op.apply v).mapError Cause.trouble) := by
  rw [eval, hv]
  rfl

theorem eval_reference (l : Location) (name : String) :
    (reference l (.word name)).eval c =
      match c.lookup? name with
      | some b => .ok b.value
      | none => .error (.error (ScriptError.locate { cause := .undefined name } l)) := by
  rw [eval, Context.read]
  change located l (match c.lookup? name with | some b => _ | none => _) = _
  cases c.lookup? name with
  | some b => rfl
  | none => rfl

/-- An expression that fails has no value, and its error tells what is to blame. -/
theorem Fails.eval {e : Expr} {b : Blame} (h : Fails c e b) :
    ∃ error, e.eval c = .error (.error error) ∧ b.ToldBy error := by
  induction h with
  | undefined h =>
    refine ⟨_, ?_, .fresh _ _⟩
    rw [eval_reference, h]
  | left _ ih =>
    obtain ⟨error, he, ht⟩ := ih
    exact ⟨_, eval_binary_left he, ht.locate _⟩
  | right hv _ ih =>
    obtain ⟨error, he, ht⟩ := ih
    exact ⟨_, eval_binary_right hv he, ht.locate _⟩
  | operator hv hw h =>
    refine ⟨_, ?_, .fresh _ _⟩
    rw [eval_binary hv hw, h]
    rfl
  | operand _ ih =>
    obtain ⟨error, he, ht⟩ := ih
    exact ⟨_, eval_unary_operand he, ht.locate _⟩
  | sign hv h =>
    refine ⟨_, ?_, .fresh _ _⟩
    rw [eval_unary hv, h]
    rfl

theorem Fails.heading {e : Expr} {b : Blame} (h : Fails c e b) :
    b.cause.kind.heading? = some "Execution error" := by
  induction h with
  | undefined => rfl
  | left _ ih => exact ih
  | right _ _ ih => exact ih
  | operator _ _ h => exact Cause.heading_of_own (BinaryOp.own_of_apply h)
  | operand _ ih => exact ih
  | sign _ h => exact Cause.heading_of_own (UnaryOp.own_of_apply h)

/-- A proper expression has a value unless it fails. -/
theorem exists_value {P : Location → Prop} {e : Expr} (h : e.Over P) :
    (∃ v, e.eval c = .ok v) ∨ ∃ b, Fails c e b := by
  induction h with
  | number _ x => exact .inl ⟨_, rfl⟩
  | string _ s => exact .inl ⟨_, rfl⟩
  | boolean _ b => exact .inl ⟨_, rfl⟩
  | @reference l _ name hn =>
    cases hn with
    | word name =>
      cases hl : c.lookup? name with
      | some b => exact .inl ⟨b.value, by rw [eval_reference, hl]⟩
      | none => exact .inr ⟨_, .undefined hl⟩
  | @binary l _ op left right _ _ iha ihb =>
    rcases iha with ⟨v, hv⟩ | ⟨b, hb⟩
    · rcases ihb with ⟨w, hw⟩ | ⟨b, hb⟩
      · cases ho : op.apply v w with
        | ok x => exact .inl ⟨x, by rw [eval_binary hv hw, ho]; rfl⟩
        | error cause => exact .inr ⟨_, .operator hv hw ho⟩
      · exact .inr ⟨_, .right hv hb⟩
    · exact .inr ⟨_, .left hb⟩
  | @unary l _ op operand _ ih =>
    rcases ih with ⟨v, hv⟩ | ⟨b, hb⟩
    · cases ho : op.apply v with
      | ok x => exact .inl ⟨x, by rw [eval_unary hv, ho]; rfl⟩
      | error cause => exact .inr ⟨_, .sign hv ho⟩
    · exact .inr ⟨_, .operand hb⟩

theorem fails_of_eval {P : Location → Prop} {e : Expr} (h : e.Over P) {t : Trouble}
    (he : e.eval c = .error t) : ∃ error b, t = .error error ∧ Fails c e b ∧ b.ToldBy error := by
  rcases exists_value (c := c) h with ⟨v, hv⟩ | ⟨b, hb⟩
  · rw [hv] at he
    cases he
  · obtain ⟨error, hf, ht⟩ := hb.eval
    rw [hf] at he
    cases he
    exact ⟨error, b, rfl, hb, ht⟩

end Expr

end AgentScript

import AgentScript.Context

/-! The meaning of expressions. Operands are evaluated from left to right, always all of them, and
an error takes the place of the innermost node that has one. -/
namespace AgentScript

namespace BinaryOp

def onNumbers (op : BinaryOp) (a b : Value) (f : Float → Float → Except Cause Value) :
    Except Cause Value :=
  match a, b with
  | .number x, .number y => f x y
  | a, b => .error (.operands op a.kind b.kind)

/-- Sums of anything but two numbers join texts. Equality and logic take all values. -/
def apply (op : BinaryOp) (a b : Value) : Except Cause Value :=
  match op with
  | add =>
    match a, b with
    | .number x, .number y => .ok (.number (x + y))
    | a, b => .ok (.string (a.text ++ b.text))
  | subtract => onNumbers op a b fun x y => .ok (.number (x - y))
  | multiply => onNumbers op a b fun x y => .ok (.number (x * y))
  | divide => onNumbers op a b fun x y =>
    if y == 0 then .error .divisionByZero else .ok (.number (x / y))
  | less => onNumbers op a b fun x y => .ok (.boolean (x < y))
  | greater => onNumbers op a b fun x y => .ok (.boolean (y < x))
  | lessEqual => onNumbers op a b fun x y => .ok (.boolean (x ≤ y))
  | greaterEqual => onNumbers op a b fun x y => .ok (.boolean (y ≤ x))
  | equal => .ok (.boolean (a.same b))
  | notEqual => .ok (.boolean (!a.same b))
  | and => .ok (.boolean (a.truthy && b.truthy))
  | or => .ok (.boolean (a.truthy || b.truthy))

end BinaryOp

def UnaryOp.apply (op : UnaryOp) (a : Value) : Except Cause Value :=
  match op, a with
  | not, a => .ok (.boolean (!a.truthy))
  | negate, .number x => .ok (.number (-x))
  | negate, a => .error (.operand a.kind)

namespace Label

def text : Label → String
  | word s => s
  | datum v => v.text

/-- The name that frames keep. Data that are no words are kept apart from words by a leading NUL,
numbers that are equal are one name, and lists and objects name nothing. -/
def key : Label → Except Fault String
  | word s => .ok s
  | datum (.arr _) => .error ⟨.type, "unhashable type: 'list'"⟩
  | datum (.obj _) => .error ⟨.type, "unhashable type: 'dict'"⟩
  | datum (.bool b) => .ok ("\x00" ++ (if b then "1" else "0"))
  | datum (.real x) =>
    .ok ("\x00" ++ (if Number.whole x then toString (Number.truncate x) else Number.exactText x))
  | datum v => .ok ("\x00" ++ v.text)

end Label

/-- An error that has no place yet. -/
def Cause.trouble (c : Cause) : Trouble := .error { cause := c }

def located {α : Type} (loc : Location) (r : Except Trouble α) : Except Trouble α :=
  r.mapError (·.locate loc)

namespace Context

def read (c : Context) (name : Label) : Except Trouble Value := do
  let key ← name.key.mapError .fault
  match c.lookup? key with
  | some b => .ok b.value
  | none => .error (Cause.undefined name.text).trouble

def assign (c : Context) (name : Label) (v : Value) : Except Trouble Context := do
  let key ← name.key.mapError .fault
  if c.has key then (c.set key v).mapError .error
  else .error (Cause.undefined name.text).trouble

def declare (c : Context) (name : Label) (v : Value) (loc : Location) :
    Except Trouble Context := do
  let key ← name.key.mapError .fault
  (c.define key v .local false loc).mapError .error

end Context

/-- A tree in the place of an expression has no value. -/
def Json.noValue (tree : Json) : Trouble :=
  match tree.nodeLocation? with
  | some loc => .error (.locatedAt (.strayExpression tree.nodeKind) loc)
  | none => .fault (.noAttribute tree.kindName "line")

namespace Expr

def loc : Expr → Location
  | number l _ | string l _ | boolean l _ | reference l _ | binary l .. | unary l .. => l
  | misfit tree => tree.nodeLocation?.getD ⟨0, 0⟩

def eval (c : Context) : Expr → Except Trouble Value
  | number _ x => .ok (.number x)
  | string _ s => .ok (.string s)
  | boolean _ b => .ok (.boolean b)
  | reference l name => located l (c.read name)
  | binary l op left right => located l do
    let a ← eval c left
    let b ← eval c right
    (op.apply a b).mapError Cause.trouble
  | unary l op operand => located l do
    let a ← eval c operand
    (op.apply a).mapError Cause.trouble
  | misfit tree => .error tree.noValue

end Expr

end AgentScript

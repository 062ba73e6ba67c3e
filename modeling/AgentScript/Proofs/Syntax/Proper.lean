import AgentScript.Eval

/-! Proper trees: no datum stands in the place of a node or of a name. The places of their nodes may
be told to have a property; a command's own place is never used. -/
namespace AgentScript

variable {P : Location → Prop}

inductive Label.IsWord : Label → Prop
  | word (s : String) : IsWord (.word s)

inductive Expr.Over (P : Location → Prop) : Expr → Prop
  | number {l : Location} (hl : P l) (x : Float) : Over P (.number l x)
  | string {l : Location} (hl : P l) (s : String) : Over P (.string l s)
  | boolean {l : Location} (hl : P l) (b : Bool) : Over P (.boolean l b)
  | reference {l : Location} (hl : P l) {name : Label} (hn : name.IsWord) :
    Over P (.reference l name)
  | binary {l : Location} (hl : P l) (op : BinaryOp) {left right : Expr} (ha : Over P left)
    (hb : Over P right) : Over P (.binary l op left right)
  | unary {l : Location} (hl : P l) (op : UnaryOp) {operand : Expr} (h : Over P operand) :
    Over P (.unary l op operand)

namespace Command

/-- The arguments of a command as far as they are used, in order: coordinates count only if all
three are given. -/
def arguments : Command → List Expr
  | say _ message => [message]
  | goto _ x y z => [x, y, z]
  | attack _ target => [target]
  | dig _ block => block.toList
  | place _ item (some x) (some y) (some z) => [item, x, y, z]
  | place _ item _ _ _ => [item]
  | equip _ item => [item]
  | drop _ item count => item :: count.toList
  | wait _ seconds => [seconds]
  | misfit _ => []

inductive IsNode : Command → Prop
  | say (loc : Location) (message : Expr) : IsNode (.say loc message)
  | goto (loc : Location) (x y z : Expr) : IsNode (.goto loc x y z)
  | attack (loc : Location) (target : Expr) : IsNode (.attack loc target)
  | dig (loc : Location) (block : Option Expr) : IsNode (.dig loc block)
  | place (loc : Location) (item : Expr) (x y z : Option Expr) : IsNode (.place loc item x y z)
  | equip (loc : Location) (item : Expr) : IsNode (.equip loc item)
  | drop (loc : Location) (item : Expr) (count : Option Expr) : IsNode (.drop loc item count)
  | wait (loc : Location) (seconds : Expr) : IsNode (.wait loc seconds)

structure Over (P : Location → Prop) (c : Command) : Prop where
  isNode : c.IsNode
  arguments : ∀ e ∈ c.arguments, e.Over P

end Command

mutual

inductive Stmt.Over (P : Location → Prop) : Stmt → Prop
  | declare {loc : Location} (hl : P loc) {name : Label} (hn : name.IsWord) {init : Expr}
    (he : init.Over P) : Stmt.Over P (.declare loc name init)
  | assign {loc : Location} (hl : P loc) {name : Label} (hn : name.IsWord) {value : Expr}
    (he : value.Over P) : Stmt.Over P (.assign loc name value)
  | branch {loc : Location} (hl : P loc) {condition : Expr} (he : condition.Over P) {yes : Body}
    (hy : Body.Over P yes) {no : Option Body} (hn : ∀ body ∈ no, Body.Over P body) :
    Stmt.Over P (.branch loc condition yes no)
  | loop {loc : Location} (hl : P loc) {count : Expr} (he : count.Over P) {body : Body}
    (hb : Body.Over P body) : Stmt.Over P (.loop loc count body)
  | command {loc : Location} (hl : P loc) {c : Command} (hc : c.Over P) :
    Stmt.Over P (.command loc c)
  | evaluate {loc : Location} (hl : P loc) {e : Expr} (he : e.Over P) : Stmt.Over P (.evaluate loc e)

inductive Body.Over (P : Location → Prop) : Body → Prop
  | statements {list : List Stmt} (h : ∀ s ∈ list, Stmt.Over P s) : Body.Over P (.statements list)

end

inductive Program.Over (P : Location → Prop) : Program → Prop
  | program (loc : Location) {body : Body} (h : body.Over P) : Over P (.program loc body)

/-- A tree whose nodes and names are what they should be. -/
abbrev Program.Proper (p : Program) : Prop := p.Over fun _ => True

theorem Expr.Over.loc {e : Expr} (h : e.Over P) : P e.loc := by
  cases h with
  | number hl => exact hl
  | string hl => exact hl
  | boolean hl => exact hl
  | reference hl => exact hl
  | binary hl => exact hl
  | unary hl => exact hl

end AgentScript

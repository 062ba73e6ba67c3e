import AgentScript.Json
import AgentScript.Location

/-! Syntax trees. Trees that the parser builds are proper. A tree read from data may also hold, in
the place of any node, a datum or a node of another kind: such a misfit is kept as it is, and counts
as a fault only when a run reaches it. -/
namespace AgentScript

inductive BinaryOp
  | add | subtract | multiply | divide
  | equal | notEqual | less | greater | lessEqual | greaterEqual
  | and | or
deriving DecidableEq, Repr

namespace BinaryOp

def all : List BinaryOp :=
  [add, subtract, multiply, divide, equal, notEqual, less, greater, lessEqual, greaterEqual, and,
    or]

def spelling : BinaryOp → String
  | add => "+"
  | subtract => "-"
  | multiply => "*"
  | divide => "/"
  | equal => "=="
  | notEqual => "!="
  | less => "<"
  | greater => ">"
  | lessEqual => "<="
  | greaterEqual => ">="
  | and => "and"
  | or => "or"

def ofSpelling? (s : String) : Option BinaryOp := all.find? fun op => op.spelling = s

end BinaryOp

inductive UnaryOp
  | not | negate
deriving DecidableEq, Repr

namespace UnaryOp

def all : List UnaryOp := [not, negate]

def spelling : UnaryOp → String
  | not => "not"
  | negate => "-"

def ofSpelling? (s : String) : Option UnaryOp := all.find? fun op => op.spelling = s

end UnaryOp

/-- What stands in a tree as a variable's name: a word, or a datum of another kind. -/
inductive Label
  | word (s : String)
  | datum (v : Json)
deriving Repr

inductive Expr
  | number (loc : Location) (x : Float)
  | string (loc : Location) (s : String)
  | boolean (loc : Location) (b : Bool)
  | reference (loc : Location) (name : Label)
  | binary (loc : Location) (op : BinaryOp) (left right : Expr)
  | unary (loc : Location) (op : UnaryOp) (operand : Expr)
  | misfit (tree : Json)
deriving Repr

inductive Command
  | say (loc : Location) (message : Expr)
  | goto (loc : Location) (x y z : Expr)
  | attack (loc : Location) (target : Expr)
  | dig (loc : Location) (block : Option Expr)
  | place (loc : Location) (item : Expr) (x y z : Option Expr)
  | equip (loc : Location) (item : Expr)
  | drop (loc : Location) (item : Expr) (count : Option Expr)
  | wait (loc : Location) (seconds : Expr)
  | misfit (tree : Json)
deriving Repr

mutual

inductive Stmt
  | declare (loc : Location) (name : Label) (init : Expr)
  | assign (loc : Location) (name : Label) (value : Expr)
  | branch (loc : Location) (condition : Expr) (yes : Body) (no : Option Body)
  | loop (loc : Location) (count : Expr) (body : Body)
  | command (loc : Location) (c : Command)
  | evaluate (loc : Location) (e : Expr)
  | misfit (tree : Json)

inductive Body
  | statements (list : List Stmt)
  | misfit (tree : Json)

end

/-- A whole program. Its own place is the start of the text. -/
inductive Program
  | program (loc : Location) (body : Body)
  | misfit (tree : Json)

def Program.ofStatements (list : List Stmt) : Program := .program .start (.statements list)

/-- The place of a node that was kept as a datum; data that are no nodes have none. -/
def Json.nodeLocation? (tree : Json) : Option Location :=
  match tree.field? "line", tree.field? "column" with
  | some (.int l), some (.int c) => some ⟨l, c⟩
  | _, _ => none

/-- The kind of a node that was kept as a datum, or of the datum itself. -/
def Json.nodeKind (tree : Json) : String :=
  match tree.field? "type" with
  | some (.str kind) => kind
  | _ => tree.kindName

end AgentScript

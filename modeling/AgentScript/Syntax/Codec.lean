import AgentScript.Json.Convert
import AgentScript.Syntax

/-! Trees as data. Reading goes in two steps: `normalise` checks and converts the fields of every
node, and `ofTree` then reads the result, which cannot fail. -/
namespace AgentScript

inductive FieldKind
  | child
  | optionalChild
  | name
  | number
  | string
  | boolean
  | binaryOp
  | unaryOp
deriving DecidableEq, Repr

/-- The fields of each kind of node, in the order in which they are checked. -/
def nodeFields? : String → Option (List (String × FieldKind))
  | "Program" => some [("statements", .child)]
  | "VariableDeclaration" => some [("name", .name), ("initializer", .child)]
  | "Assignment" => some [("target", .name), ("value", .child)]
  | "IfStatement" =>
    some [("condition", .child), ("then_block", .child), ("else_block", .optionalChild)]
  | "RepeatStatement" => some [("count", .child), ("body", .child)]
  | "CommandStatement" => some [("command", .child)]
  | "ExpressionStatement" => some [("expression", .child)]
  | "NumberLiteral" => some [("value", .number)]
  | "StringLiteral" => some [("value", .string)]
  | "BooleanLiteral" => some [("value", .boolean)]
  | "VariableReference" => some [("name", .name)]
  | "BinaryExpr" => some [("left", .child), ("op", .binaryOp), ("right", .child)]
  | "UnaryExpr" => some [("op", .unaryOp), ("operand", .child)]
  | "SayCommand" => some [("message", .child)]
  | "GotoCommand" => some [("x", .child), ("y", .child), ("z", .child)]
  | "AttackCommand" => some [("target", .child)]
  | "DigCommand" => some [("block_type", .optionalChild)]
  | "PlaceCommand" =>
    some [("item", .child), ("x", .optionalChild), ("y", .optionalChild), ("z", .optionalChild)]
  | "EquipCommand" => some [("item", .child)]
  | "DropCommand" => some [("item", .child), ("count", .optionalChild)]
  | "WaitCommand" => some [("seconds", .child)]
  | _ => none

/-- A node as data: its kind and place come first, then its operator, then the other fields. -/
def nodeTree (kind : String) (loc : Location) (fields : List (String × Json)) : Json :=
  .obj (("type", .str kind) :: ("line", .int loc.line) :: ("column", .int loc.column) :: fields)

/-- A field before and after its value was normalised as a tree. -/
structure FieldTree where
  key : String
  raw : Json
  tree : Except Fault Json

namespace Json

def memberOf (family : String) (spellings : List String) (v : Json) : Except Fault Json :=
  match v with
  | .str s => if spellings.contains s then .ok v else .error (.notAMember v.inner family)
  | _ => .error (.notAMember v.inner family)

def convertField (key : String) (kind : FieldKind) (fields : List FieldTree) : Except Fault Json :=
  match fields.find? (·.key = key), kind with
  | none, .optionalChild => .ok .null
  | none, _ => .error (.missingKey key)
  | some f, .child => f.tree
  | some f, .optionalChild => f.tree
  | some f, .name => .ok f.raw
  | some f, .number => f.raw.toFloat.map .real
  | some f, .string => .ok (.str f.raw.text)
  | some f, .boolean => .ok (.bool f.raw.truthy)
  | some f, .binaryOp => memberOf "BinaryOperator" (BinaryOp.all.map (·.spelling)) f.raw
  | some f, .unaryOp => memberOf "UnaryOperator" (UnaryOp.all.map (·.spelling)) f.raw

/-- The operator of a node is written before its operands. -/
def operatorFirst (fields : List (String × Json)) : List (String × Json) :=
  fields.filter (·.1 = "op") ++ fields.filter (·.1 ≠ "op")

/-- A line or a column: zero unless given. -/
def placeField (key : String) (fields : List FieldTree) : Except Fault Int :=
  match fields.find? (·.key = key) with
  | some f => f.raw.toInt
  | none => .ok 0

/-- Checks a node, its place first and then its fields in order. -/
def convertNode (fields : List FieldTree) : Except Fault Json := do
  let line ← placeField "line" fields
  let column ← placeField "column" fields
  let type := ((fields.find? (·.key = "type")).map (·.raw)).getD .null
  let unknown : Fault := ⟨.value, "Unknown AST node type: " ++ type.text⟩
  match type with
  | .str kind =>
    match nodeFields? kind with
    | some shape =>
      let converted ← shape.mapM fun (key, fieldKind) => do
        return (key, ← convertField key fieldKind fields)
      return nodeTree kind ⟨line, column⟩ (operatorFirst converted)
    | none => .error unknown
  | _ => .error unknown

mutual

/-- Checks a tree and converts the fields of its nodes. Data that are no nodes pass unchanged. -/
def normalise : Json → Except Fault Json
  | .arr items => (normaliseItems items).map .arr
  | .obj fields => convertNode (fieldTrees fields)
  | v => .ok v

def normaliseItems : List Json → Except Fault (List Json)
  | [] => .ok []
  | v :: rest => do
    let v ← normalise v
    let rest ← normaliseItems rest
    return v :: rest

def fieldTrees : List (String × Json) → List FieldTree
  | [] => []
  | (k, v) :: rest => ⟨k, v, normalise v⟩ :: fieldTrees rest

end

end Json

namespace Label

def ofTree : Json → Label
  | .str s => .word s
  | v => .datum v

def toTree : Label → Json
  | word s => .str s
  | datum v => v

end Label

namespace Expr

def ofTree : Json → Expr
  | .obj ((_, .str kind) :: (_, .int line) :: (_, .int column) :: fields) =>
    match kind, fields with
    | "NumberLiteral", [(_, .real x)] => .number ⟨line, column⟩ x
    | "StringLiteral", [(_, .str s)] => .string ⟨line, column⟩ s
    | "BooleanLiteral", [(_, .bool b)] => .boolean ⟨line, column⟩ b
    | "VariableReference", [(_, name)] => .reference ⟨line, column⟩ (Label.ofTree name)
    | "BinaryExpr", [(k₀, .str op), (k₁, left), (k₂, right)] =>
      match BinaryOp.ofSpelling? op with
      | some op => .binary ⟨line, column⟩ op (ofTree left) (ofTree right)
      | none => .misfit (nodeTree kind ⟨line, column⟩ [(k₀, .str op), (k₁, left), (k₂, right)])
    | "UnaryExpr", [(k₀, .str op), (k₁, operand)] =>
      match UnaryOp.ofSpelling? op with
      | some op => .unary ⟨line, column⟩ op (ofTree operand)
      | none => .misfit (nodeTree kind ⟨line, column⟩ [(k₀, .str op), (k₁, operand)])
    | kind, fields => .misfit (nodeTree kind ⟨line, column⟩ fields)
  | v => .misfit v

/-- Null stands for an argument that is not given. -/
def ofTree? : Json → Option Expr
  | .null => none
  | v => some (ofTree v)

def toTree : Expr → Json
  | number loc x => nodeTree "NumberLiteral" loc [("value", .real x)]
  | string loc s => nodeTree "StringLiteral" loc [("value", .str s)]
  | boolean loc b => nodeTree "BooleanLiteral" loc [("value", .bool b)]
  | reference loc name => nodeTree "VariableReference" loc [("name", name.toTree)]
  | binary loc op left right =>
    nodeTree "BinaryExpr" loc
      [("op", .str op.spelling), ("left", left.toTree), ("right", right.toTree)]
  | unary loc op operand =>
    nodeTree "UnaryExpr" loc [("op", .str op.spelling), ("operand", operand.toTree)]
  | misfit tree => tree

def toTree? : Option Expr → Json
  | none => .null
  | some e => e.toTree

end Expr

namespace Command

def ofTree : Json → Command
  | .obj ((_, .str kind) :: (_, .int line) :: (_, .int column) :: fields) =>
    match kind, fields with
    | "SayCommand", [(_, message)] => .say ⟨line, column⟩ (.ofTree message)
    | "GotoCommand", [(_, x), (_, y), (_, z)] =>
      .goto ⟨line, column⟩ (.ofTree x) (.ofTree y) (.ofTree z)
    | "AttackCommand", [(_, target)] => .attack ⟨line, column⟩ (.ofTree target)
    | "DigCommand", [(_, block)] => .dig ⟨line, column⟩ (Expr.ofTree? block)
    | "PlaceCommand", [(_, item), (_, x), (_, y), (_, z)] =>
      .place ⟨line, column⟩ (.ofTree item) (Expr.ofTree? x) (Expr.ofTree? y) (Expr.ofTree? z)
    | "EquipCommand", [(_, item)] => .equip ⟨line, column⟩ (.ofTree item)
    | "DropCommand", [(_, item), (_, count)] =>
      .drop ⟨line, column⟩ (.ofTree item) (Expr.ofTree? count)
    | "WaitCommand", [(_, seconds)] => .wait ⟨line, column⟩ (.ofTree seconds)
    | kind, fields => .misfit (nodeTree kind ⟨line, column⟩ fields)
  | v => .misfit v

def toTree : Command → Json
  | say loc message => nodeTree "SayCommand" loc [("message", message.toTree)]
  | goto loc x y z =>
    nodeTree "GotoCommand" loc [("x", x.toTree), ("y", y.toTree), ("z", z.toTree)]
  | attack loc target => nodeTree "AttackCommand" loc [("target", target.toTree)]
  | dig loc block => nodeTree "DigCommand" loc [("block_type", Expr.toTree? block)]
  | place loc item x y z =>
    nodeTree "PlaceCommand" loc
      [("item", item.toTree), ("x", Expr.toTree? x), ("y", Expr.toTree? y), ("z", Expr.toTree? z)]
  | equip loc item => nodeTree "EquipCommand" loc [("item", item.toTree)]
  | drop loc item count =>
    nodeTree "DropCommand" loc [("item", item.toTree), ("count", Expr.toTree? count)]
  | wait loc seconds => nodeTree "WaitCommand" loc [("seconds", seconds.toTree)]
  | misfit tree => tree

end Command

mutual

def Stmt.ofTree : Json → Stmt
  | .obj ((_, .str kind) :: (_, .int line) :: (_, .int column) :: fields) =>
    match kind, fields with
    | "VariableDeclaration", [(_, name), (_, init)] =>
      .declare ⟨line, column⟩ (.ofTree name) (.ofTree init)
    | "Assignment", [(_, name), (_, value)] =>
      .assign ⟨line, column⟩ (.ofTree name) (.ofTree value)
    | "IfStatement", [(_, condition), (_, yes), (_, .null)] =>
      .branch ⟨line, column⟩ (.ofTree condition) (Body.ofTree yes) none
    | "IfStatement", [(_, condition), (_, yes), (_, no)] =>
      .branch ⟨line, column⟩ (.ofTree condition) (Body.ofTree yes) (some (Body.ofTree no))
    | "RepeatStatement", [(_, count), (_, body)] =>
      .loop ⟨line, column⟩ (.ofTree count) (Body.ofTree body)
    | "CommandStatement", [(_, c)] => .command ⟨line, column⟩ (.ofTree c)
    | "ExpressionStatement", [(_, e)] => .evaluate ⟨line, column⟩ (.ofTree e)
    | kind, fields => .misfit (nodeTree kind ⟨line, column⟩ fields)
  | v => .misfit v

def Body.ofTree : Json → Body
  | .arr items => .statements (Stmt.ofTrees items)
  | v => .misfit v

def Stmt.ofTrees : List Json → List Stmt
  | [] => []
  | v :: rest => Stmt.ofTree v :: Stmt.ofTrees rest

end

mutual

def Stmt.toTree : Stmt → Json
  | .declare loc name init =>
    nodeTree "VariableDeclaration" loc [("name", name.toTree), ("initializer", init.toTree)]
  | .assign loc name value =>
    nodeTree "Assignment" loc [("target", name.toTree), ("value", value.toTree)]
  | .branch loc condition yes none =>
    nodeTree "IfStatement" loc
      [("condition", condition.toTree), ("then_block", yes.toTree), ("else_block", .null)]
  | .branch loc condition yes (some no) =>
    nodeTree "IfStatement" loc
      [("condition", condition.toTree), ("then_block", yes.toTree), ("else_block", no.toTree)]
  | .loop loc count body =>
    nodeTree "RepeatStatement" loc [("count", count.toTree), ("body", body.toTree)]
  | .command loc c => nodeTree "CommandStatement" loc [("command", c.toTree)]
  | .evaluate loc e => nodeTree "ExpressionStatement" loc [("expression", e.toTree)]
  | .misfit tree => tree

def Body.toTree : Body → Json
  | .statements list => .arr (Stmt.toTrees list)
  | .misfit tree => tree

def Stmt.toTrees : List Stmt → List Json
  | [] => []
  | s :: rest => s.toTree :: Stmt.toTrees rest

end

namespace Program

def ofTree : Json → Program
  | .obj ((_, .str kind) :: (_, .int line) :: (_, .int column) :: fields) =>
    match kind, fields with
    | "Program", [(_, body)] => .program ⟨line, column⟩ (.ofTree body)
    | kind, fields => .misfit (nodeTree kind ⟨line, column⟩ fields)
  | v => .misfit v

def toTree : Program → Json
  | program loc body => nodeTree "Program" loc [("statements", body.toTree)]
  | misfit tree => tree

def ofJson (v : Json) : Except Fault Program := v.normalise.map ofTree

end Program

end AgentScript

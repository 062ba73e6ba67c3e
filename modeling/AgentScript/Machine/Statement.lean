import AgentScript.Machine.Command

/-! What statements do. Blocks open a scope of their own, and stops take effect before a statement
or an iteration. -/
namespace AgentScript

namespace Stmt

def loc : Stmt → Location
  | declare l .. | assign l .. | branch l .. | loop l .. | command l _ | evaluate l _ => l
  | misfit tree => tree.nodeLocation?.getD ⟨0, 0⟩

end Stmt

namespace Run

variable {β : Type}

/-- Runs a statement of some kind: its errors get its place, and it counts once it is done. -/
def counted (loc : Location) (kind : String) (part : RunOn β Unit) : RunOn β Unit := do
  log .debug ("line " ++ toString loc.line ++ ": " ++ kind)
  locate loc part
  changeContext fun c => .ok c.countStatement

/-- Takes down what a command came to. A command that fails ends the run. -/
def conclude (loc : Location) (result : CommandResult) : RunOn β Unit := do
  modify fun m => { m with last := some result, context := m.context.countCommand }
  if result.success then
    log .debug (result.message ++ " (" ++ Number.fixedText 0 result.duration ++ "ms)")
  else
    log .warning ("Command failed at line " ++ toString loc.line ++ ": " ++ result.message)
    fail (Cause.commandFailed result.message).trouble

/-- How often a block repeats: a finite number that is not negative, rounded down. -/
def repetitions : Value → Except Cause Nat
  | .number x =>
    if x.isFinite then
      if Number.floor x < 0 then .error (.repeatNegative x) else .ok (Number.floor x).toNat
    else .error (.repeatInfinite x)
  | v => .error (.repeatKind v.kind)

/-- The variable that counts iterations from zero. -/
def indexName : String := "_loop_index"

def iteration (body : RunOn β Unit) (index : Nat) : RunOn β Unit := inScope do
  changeContext fun c =>
    (c.define indexName (.number (Float.ofNat index)) .local false ⟨0, 0⟩).mapError .error
  body

/-- A tree in the place of a statement. Only nodes have a place to report. -/
def strayStatement (tree : Json) : RunOn β Unit :=
  match tree.nodeLocation? with
  | some loc => counted loc tree.nodeKind (fail (Cause.strayStatement tree.nodeKind).trouble)
  | none => fail (.fault (.noAttribute tree.kindName "line"))

/-- A tree in the place of a block. A text is a block of its characters, and none of them is a
statement. -/
def strayBody (tree : Json) : RunOn β Unit :=
  match tree with
  | .str "" => pure ()
  | .str s => do
    checkStop
    strayStatement (.str s)
  | tree => fail (.fault ⟨.type, "'" ++ tree.nodeKind ++ "' object is not iterable"⟩)

variable [Port β]

def commandStatement (loc : Location) (c : Command) : RunOn β Unit := do
  conclude loc (← command c)

mutual

def statement : Stmt → RunOn β Unit
  | .declare loc name init => counted loc "VariableDeclaration" do
    let v ← evaluate init
    changeContext (·.declare name v loc)
  | .assign loc name value => counted loc "Assignment" do
    let v ← evaluate value
    changeContext (·.assign name v)
  | .branch loc condition yes no => counted loc "IfStatement" do
    let v ← evaluate condition
    inScope (if v.truthy then chosen yes else otherwise no)
  | .loop loc count body => counted loc "RepeatStatement" do
    let v ← evaluate count
    let n ← lift ((repetitions v).mapError Cause.trouble)
    times (iteration (block body)) 0 n
  | .command loc c => counted loc "CommandStatement" (commandStatement loc c)
  | .evaluate loc e => counted loc "ExpressionStatement" (discard (evaluate e))
  | .misfit tree => strayStatement tree

def block : Body → RunOn β Unit
  | .statements list => statements list
  | .misfit tree => strayBody tree

def chosen : Body → RunOn β Unit
  | .statements list => statements list
  | .misfit .null => pure ()
  | .misfit tree => strayBody tree

def otherwise : Option Body → RunOn β Unit
  | some body => chosen body
  | none => pure ()

def statements : List Stmt → RunOn β Unit
  | [] => pure ()
  | s :: rest => do
    checkStop
    statement s
    statements rest

end

end Run

end AgentScript

import AgentScript.Bot.Request
import AgentScript.Fault
import AgentScript.Syntax
import AgentScript.Token
import AgentScript.Value

/-! Errors of scripts, which have a cause and may have a place. -/
namespace AgentScript

inductive ErrorKind
  | general | parse | runtime | undefined | readonly | typeMismatch | divisionByZero
  | badArgument | commandFailure
deriving DecidableEq, Repr

/-- What opens the message of a kind; general errors show their bare text. -/
def ErrorKind.heading? : ErrorKind → Option String
  | general => none
  | parse => some "Parse error"
  | _ => some "Execution error"

/-- Why a program was rejected or a run failed. -/
inductive Cause
  | unexpected (wanted : String) (found : Token)
  | undefined (name : String)
  | readonly (name : String)
  | divisionByZero
  | operands (op : BinaryOp) (left right : Kind)
  | operand (kind : Kind)
  | repeatKind (kind : Kind)
  | repeatInfinite (count : Float)
  | repeatNegative (count : Float)
  | coordinate (command : String) (kind : Kind)
  | dropCount (count : Value)
  | waitSeconds (seconds : Value)
  | commandFailed (message : String)
  | refused (request : Request) (text : String)
  | strayStatement (kind : String)
  | strayCommand (kind : String)
  | strayExpression (kind : String)
  | stated (kind : ErrorKind) (text : String)
deriving DecidableEq, Repr

namespace Cause

def kind : Cause → ErrorKind
  | unexpected .. => .parse
  | undefined _ => .undefined
  | readonly _ => .readonly
  | divisionByZero => .divisionByZero
  | operands .. => .typeMismatch
  | operand _ => .typeMismatch
  | repeatKind _ => .badArgument
  | repeatInfinite _ => .badArgument
  | repeatNegative _ => .badArgument
  | coordinate .. => .badArgument
  | dropCount _ => .badArgument
  | waitSeconds _ => .badArgument
  | commandFailed _ => .commandFailure
  | refused .. => .commandFailure
  | strayStatement _ => .runtime
  | strayCommand _ => .runtime
  | strayExpression _ => .runtime
  | stated k _ => k

def message : Cause → String
  | unexpected wanted found => "Expected " ++ wanted ++ ", got " ++ found.describe
  | undefined name => "Undefined variable: " ++ name
  | readonly name => "Cannot modify readonly variable: " ++ name
  | divisionByZero => "Division by zero"
  | operands op l r =>
    "Operator '" ++ op.spelling ++ "' requires numbers, got " ++ l.name ++ " and " ++ r.name
  | operand k => "Unary minus requires a number, got " ++ k.name
  | repeatKind k => "Repeat count must be a number, got " ++ k.name
  | repeatInfinite x => "Repeat count must be finite, got " ++ Number.scriptText x
  | repeatNegative x => "Repeat count must be non-negative, got " ++ Number.scriptText x
  | coordinate command k => command ++ " coordinates must be numbers, got " ++ k.name
  | dropCount v => "DROP count must be a number of at least 1, got " ++ v.text
  | waitSeconds v => "WAIT duration must be a non-negative number, got " ++ v.text
  | commandFailed message => "Command failed: " ++ message
  | refused _ text => text
  | strayStatement k => "Unknown statement type: " ++ k
  | strayCommand k => "Unknown command type: " ++ k
  | strayExpression k => "Unknown expression type: " ++ k
  | stated _ text => text

end Cause

/-- An error with its cause, and with a line and a column as far as they are known. -/
structure ScriptError where
  cause : Cause
  line : Option Int := none
  column : Option Int := none
deriving DecidableEq, Repr

namespace ScriptError

def locatedAt (cause : Cause) (loc : Location) : ScriptError :=
  ⟨cause, some loc.line, some loc.column⟩

/-- Only positive lines are places in a source. -/
def hasPosition (e : ScriptError) : Bool := e.line.any (0 < ·)

/-- Gives an error a place unless it has one. -/
def locate (e : ScriptError) (loc : Location) : ScriptError :=
  if e.hasPosition then e else locatedAt e.cause loc

theorem cause_locate (e : ScriptError) (loc : Location) : (e.locate loc).cause = e.cause := by
  unfold locate
  split <;> rfl

def text (e : ScriptError) : String :=
  match e.cause.kind.heading?, e.line with
  | none, _ => e.cause.message
  | some heading, some line =>
    if 0 < line then
      heading ++ " at line " ++ toString line ++ ", column "
        ++ (match e.column with | some c => toString c | none => "None") ++ ": " ++ e.cause.message
    else heading ++ ": " ++ e.cause.message
  | some heading, none => heading ++ ": " ++ e.cause.message

end ScriptError

/-- Why an operation has no result: an error of the script or a fault of the host. -/
inductive Trouble
  | error (e : ScriptError)
  | fault (f : Fault)
deriving DecidableEq, Repr

namespace Trouble

def text : Trouble → String
  | error e => e.text
  | fault f => f.text

/-- The text, or for a fault without text the name of its kind. -/
def summary : Trouble → String
  | error e => e.text
  | fault f => f.summary

/-- Gives an error a place unless it has one. Faults have no place. -/
def locate (t : Trouble) (loc : Location) : Trouble :=
  match t with
  | error e => error (e.locate loc)
  | fault f => fault f

end Trouble

end AgentScript

import AgentScript.Error
import AgentScript.Telemetry

/-! Variables and statistics of a run: a global frame below a stack of local frames. -/
namespace AgentScript

inductive Scope
  | global
  | local
deriving DecidableEq, Repr

def Scope.name : Scope → String
  | .global => "global"
  | .local => "local"

/-- A variable: its value, the scope it was defined in, and the place of its definition. -/
structure Binding where
  name : String
  value : Value
  scope : Scope
  readonly : Bool := false
  loc : Location := ⟨0, 0⟩
deriving DecidableEq, Repr

/-- The variables of one block, each name once, in the order of their definition. -/
abbrev Frame : Type := List Binding

namespace Frame

def find? (f : Frame) (name : String) : Option Binding := List.find? (·.name = name) f

/-- Binds a name. A name that is bound already keeps its place. -/
def put (f : Frame) (b : Binding) : Frame :=
  match f with
  | [] => [b]
  | a :: rest => if a.name = b.name then b :: rest else a :: put rest b

end Frame

/-- What happened since the start of a run, or since the context was made. Times are in
milliseconds. -/
structure Stats where
  statements : Nat := 0
  commands : Nat := 0
  definitions : Nat := 0
  start : Float
  finish : Option Float := none
  errors : List String := []
deriving DecidableEq, Repr

/-- The local frames stand innermost first. -/
structure Context where
  botName : String
  version : String
  globals : Frame
  locals : List Frame
  stats : Stats
deriving DecidableEq, Repr

namespace Context

def pi : Float := 3.141592653589793

def systemBinding (name : String) (v : Value) : Binding :=
  { name := name, value := v, scope := .global, readonly := true }

def writeSystem (c : Context) (name : String) (v : Value) : Context :=
  { c with globals := c.globals.put (systemBinding name v) }

def fresh (botName version : String) (now : Float) : Context :=
  { botName := botName
    version := version
    globals := [systemBinding "bot_name" (.string botName),
      systemBinding "version" (.string version), systemBinding "pi" (.number pi),
      systemBinding "timestamp" (.number now)]
    locals := []
    stats := { start := now } }

def reset (c : Context) (now : Float) : Context := fresh c.botName c.version now

def frames (c : Context) : List Frame := c.locals ++ [c.globals]

/-- The variable that a name means: the one in the innermost frame that binds it. -/
def lookup? (c : Context) (name : String) : Option Binding :=
  c.frames.findSome? (·.find? name)

/-- Defines a variable in the innermost local frame, or in the global frame if that is asked for or
no local frame is open. A readonly variable of that frame cannot be defined anew. -/
def define (c : Context) (name : String) (v : Value) (scope : Scope) (readonly : Bool)
    (loc : Location) : Except ScriptError Context :=
  let violation : ScriptError :=
    { cause := .readonly name
      line := if loc.line = 0 then none else some loc.line
      column := if loc.column = 0 then none else some loc.column }
  let created : Stats := { c.stats with definitions := c.stats.definitions + 1 }
  match scope, c.locals with
  | .local, frame :: rest =>
    if (frame.find? name).any (·.readonly) then .error violation
    else .ok { c with
      locals := frame.put ⟨name, v, .local, readonly, loc⟩ :: rest
      stats := created }
  | _, _ =>
    if (c.globals.find? name).any (·.readonly) then .error violation
    else .ok { c with
      globals := c.globals.put ⟨name, v, .global, readonly, loc⟩
      stats := created }

def get (c : Context) (name : String) : Except ScriptError Value :=
  match c.lookup? name with
  | some b => .ok b.value
  | none => .error { cause := .undefined name }

/-- Changes the value of a name in the innermost of some frames that binds it. -/
def assignIn (name : String) (v : Value) : List Frame → List Frame
  | [] => []
  | f :: rest =>
    match f.find? name with
    | some b => f.put { b with value := v } :: rest
    | none => f :: assignIn name v rest

def set (c : Context) (name : String) (v : Value) : Except ScriptError Context :=
  match c.lookup? name with
  | none => .error { cause := .undefined name }
  | some b =>
    if b.readonly then .error { cause := .readonly name }
    else if c.locals.any fun f => (f.find? name).isSome then
      .ok { c with locals := assignIn name v c.locals }
    else .ok { c with globals := c.globals.put { b with value := v } }

def has (c : Context) (name : String) : Bool := (c.lookup? name).isSome

/-- Adds a name, or replaces its value. -/
def overlay (shown : List (String × Value)) (b : Binding) : List (String × Value) :=
  match shown with
  | [] => [(b.name, b.value)]
  | (n, v) :: rest => if n = b.name then (n, b.value) :: rest else (n, v) :: overlay rest b

/-- Every visible name with its value. Inner frames hide outer ones. -/
def visible (c : Context) : List (String × Value) :=
  (c.globals :: c.locals.reverse).foldl (fun shown f => f.foldl overlay shown) []

def enter (c : Context) : Context := { c with locals := [] :: c.locals }

/-- Drops the innermost local frame, if there is one. -/
def exit (c : Context) : Context := { c with locals := c.locals.drop 1 }

def depth (c : Context) : Nat := c.locals.length

/-- Writes the variables of a snapshot and the time. Nothing changes if a reading has no value. -/
def update (c : Context) (s : Option Snapshot) (now : Float) : Except Fault Context := do
  let shown ← match s with
    | none => .ok []
    | some s => s.toVariables
  return (shown.foldl (fun c (name, v) => c.writeSystem name v) c).writeSystem
    "timestamp" (.number now)

def countStatement (c : Context) : Context :=
  { c with stats := { c.stats with statements := c.stats.statements + 1 } }

def countCommand (c : Context) : Context :=
  { c with stats := { c.stats with commands := c.stats.commands + 1 } }

def recordError (c : Context) (message : String) : Context :=
  { c with stats := { c.stats with errors := c.stats.errors ++ [message] } }

def markStart (c : Context) (now : Float) : Context :=
  { c with stats := { c.stats with start := now, finish := none } }

def markComplete (c : Context) (now : Float) : Context :=
  { c with stats := { c.stats with finish := some now } }

/-- The time from the start to the end, or to now while there is no end. -/
def elapsed (c : Context) (now : Float) : Float := c.stats.finish.getD now - c.stats.start

def statsAt (c : Context) (now : Float) : Stats :=
  { c.stats with finish := some (c.stats.finish.getD now) }

def report (c : Context) (now : Float) : List String :=
  let line (b : Binding) : String := "  " ++ b.name ++ ": " ++ b.value.kindName ++ " = "
    ++ b.value.text
  let globals := (c.globals.mergeSort fun a b => a.name ≤ b.name).map fun b =>
    line b ++ (if b.readonly then " (readonly)" else "")
  let locals := c.locals.reverse.zipIdx.flatMap fun (f, i) =>
    ("Local scope " ++ toString (i + 1) ++ ":") :: f.map line
  ["=== Execution Context ===", "Scope depth: " ++ toString c.depth, "Global variables:"]
    ++ globals ++ locals
    ++ ["Statistics:",
      "  statements executed: " ++ toString c.stats.statements,
      "  commands executed: " ++ toString c.stats.commands,
      "  variables created: " ++ toString c.stats.definitions,
      "  execution time: " ++ Number.fixedText 0 (c.elapsed now) ++ "ms"]
    ++ (if c.stats.errors.isEmpty then [] else "Errors:" :: c.stats.errors.map ("  " ++ ·))

end Context

end AgentScript

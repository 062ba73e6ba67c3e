import AgentScript.Bot
import AgentScript.Eval
import AgentScript.Settings

/-! The machine that runs programs: a bot, a context, a clock, and what is to happen meanwhile. -/
namespace AgentScript

/-- What a command came to, and the milliseconds that it took. -/
structure CommandResult where
  success : Bool
  message : String
  duration : Float := 0
deriving DecidableEq, Repr

inductive Phase
  | idle | running | completed | failed | stopped
deriving DecidableEq, Repr

def Phase.name : Phase → String
  | idle => "IDLE"
  | running => "RUNNING"
  | completed => "COMPLETED"
  | failed => "FAILED"
  | stopped => "STOPPED"

inductive LogLevel
  | debug | info | warning
deriving DecidableEq, Repr

namespace LogLevel

def name : LogLevel → String
  | debug => "DEBUG"
  | info => "INFO"
  | warning => "WARNING"

/-- How much detail has to be asked for to see the lines of a level. -/
def detail : LogLevel → Nat
  | warning => 0
  | info => 1
  | debug => 2

end LogLevel

inductive Line
  | print (text : String)
  | log (level : LogLevel) (time : Float) (text : String)
deriving DecidableEq, Repr

/-- What happens at a set time of a run, while it waits: a request to stop, or a look at the
machine. -/
inductive Errand
  | stop
  | probe
deriving DecidableEq, Repr

structure Alarm where
  due : Float
  errand : Errand
deriving DecidableEq, Repr

/-- What a look at the machine found: its phase, and whether it would take another context or
program. -/
structure Probe where
  running : Bool
  phase : Phase
  newContext : Except Fault Unit
  newProgram : Except Fault Unit

/-- A machine that runs programs on a bot. The bot may be of any kind; by default it is the bot of
the in-memory world. -/
structure Machine (β : Type := Bot) where
  bot : β
  context : Context
  settings : Settings
  /-- The time in seconds. -/
  clock : Float := 0
  phase : Phase := .idle
  running : Bool := false
  stopRequested : Bool := false
  last : Option CommandResult := none
  output : Array Line := #[]
  alarms : List Alarm := []
  /-- Asks for a stop when a request is made for the given time, counted down to one. -/
  stopAt : Option (Request × Nat) := none
  probes : List Probe := []

inductive Halt
  | trouble (t : Trouble)
  | stopped
deriving DecidableEq, Repr

/-- A part of a run on a bot of some kind. What it changed stays changed when it ends early. -/
abbrev RunOn (β : Type) : Type → Type := EStateM Halt (Machine β)

abbrev Run : Type → Type := RunOn Bot

variable {β : Type}

namespace Machine

def fresh (bot : β) (settings : Settings) (clock : Float) : Machine β :=
  { bot := bot
    context := Context.fresh settings.botName settings.version (clock * 1000)
    settings := settings
    clock := clock }

/-- The time in milliseconds. -/
def now (m : Machine β) : Float := m.clock * 1000

def stop (m : Machine β) : Machine β := { m with stopRequested := true }

def log (m : Machine β) (level : LogLevel) (text : String) : Machine β :=
  { m with output := m.output.push (.log level m.clock text) }

def print (m : Machine) (text : String) : Machine :=
  if m.bot.echo then { m with output := m.output.push (.print text) } else m

/-- Makes a machine ready to run a program, unless it is running one. -/
def begin (m : Machine β) : Except Fault (Machine β) :=
  if m.running then .error ⟨.runtime, "Interpreter is already executing a program"⟩
  else .ok { m with
    running := true
    stopRequested := false
    phase := .running
    context := m.context.markStart m.now }

def setContext (m : Machine β) (c : Context) : Except Fault (Machine β) :=
  if m.running then .error ⟨.runtime, "Cannot replace the context while a program is running"⟩
  else .ok { m with context := c }

def look (m : Machine β) : Probe :=
  { running := m.running
    phase := m.phase
    newContext := (m.setContext (Context.fresh "" "" m.now)).map fun _ => ()
    newProgram := m.begin.map fun _ => () }

def run (m : Machine β) : Errand → Machine β
  | .stop => m.stop
  | .probe => { m with probes := m.probes ++ [m.look] }

/-- Alarms less than a nanosecond away go off together. -/
def tick : Float := 1e-9

/-- Lets the alarms go off that are due by a time. -/
def ring (m : Machine β) (time : Float) : Machine β :=
  let (due, later) := m.alarms.partition (·.due < time + tick)
  due.foldl (fun m a => m.run a.errand) { m with alarms := later }

/-- Waits until a time, which never moves the clock back. -/
def waitUntil (m : Machine β) (time : Float) : Machine β :=
  let m := m.ring time
  if m.clock < time then { m with clock := time } else m

/-- Counts a request down toward the stop that is set on it. -/
def countDown (m : Machine β) (request : Request) : Machine β :=
  match m.stopAt with
  | some (r, n) =>
    if r ≠ request then m
    else if n = 1 then { m.stop with stopAt := none }
    else { m with stopAt := some (r, n - 1) }
  | none => m

def record (m : Machine) (call : Call) : Machine :=
  { m with bot := { m.bot with calls := m.bot.calls.push call } }.countDown call.request

end Machine

namespace Run

def fail {α : Type} (t : Trouble) : RunOn β α := throw (.trouble t)

/-- A step that can fail and changes nothing. -/
def lift {α : Type} (r : Except Trouble α) : RunOn β α :=
  match r with
  | .ok a => pure a
  | .error t => fail t

def ask {α : Type} (question : Bot → Except Trouble α) : Run α := do
  lift (question (← get).bot)

def evaluate (e : Expr) : RunOn β Value := do
  lift (e.eval (← get).context)

def changeContext (f : Context → Except Trouble Context) : RunOn β Unit := do
  let m ← get
  let c ← lift (f m.context)
  set { m with context := c }

def log (level : LogLevel) (text : String) : RunOn β Unit := modify (·.log level text)

/-- Runs a part and keeps its trouble as a result. -/
def attempt {α : Type} (part : RunOn β α) : RunOn β (Except Trouble α) := fun m =>
  match part m with
  | .ok a m => .ok (.ok a) m
  | .error (.trouble t) m => .ok (.error t) m
  | .error .stopped m => .error .stopped m

def locate {α : Type} (loc : Location) (part : RunOn β α) : RunOn β α := fun m =>
  match part m with
  | .ok a m => .ok a m
  | .error (.trouble t) m => .error (.trouble (t.locate loc)) m
  | .error .stopped m => .error .stopped m

/-- Runs a part in a scope of its own, which is closed however the part ends. -/
def inScope {α : Type} (part : RunOn β α) : RunOn β α := fun m =>
  match part { m with context := m.context.enter } with
  | .ok a m => .ok a { m with context := m.context.exit }
  | .error h m => .error h { m with context := m.context.exit }

def checkStop : RunOn β Unit := do
  if (← get).stopRequested then throw .stopped

/-- Makes a request of the bot. It is recorded even if the bot refuses it. -/
def request (call : Call) : Run Unit := do
  modify (·.record call)
  lift ((← get).bot.ask call.request)

/-- Makes a request of the bot, and then its effect takes place and is printed. -/
def perform (call : Call) (effect : Bot → Bot) (line : Option String) : Run Unit := do
  request call
  modify fun m => { m with bot := effect m.bot }
  match line with
  | some text => modify (·.print text)
  | none => pure ()

/-- Repeats a part, stopping in between if that is asked for. -/
def times (part : Nat → RunOn β Unit) (index count : Nat) : RunOn β Unit :=
  match count with
  | 0 => pure ()
  | count + 1 => do
    checkStop
    part index
    times part (index + 1) count

end Run

end AgentScript

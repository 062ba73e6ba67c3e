import AgentScript.Machine.Statement

/-! Whole runs: the readings at the start, the statements, and how a run ends. -/
namespace AgentScript

/-- How a run ends that no fault breaks off. -/
inductive Outcome
  | success
  | error (message : String)
  | stopped
deriving DecidableEq, Repr

namespace Outcome

def name : Outcome → String
  | success => "SUCCESS"
  | error _ => "ERROR"
  | stopped => "STOPPED"

def message? : Outcome → Option String
  | success => none
  | error message => some message
  | stopped => some "Execution stopped"

end Outcome

namespace Program

/-- The statements of a program, if the tree is one. -/
def body : Program → Except Fault Body
  | program _ body => .ok body
  | misfit tree => .error (.noAttribute tree.nodeKind "statements")

/-- How many statements a program announces. Texts count their characters, and other trees have no
length. -/
def size (p : Program) : Except Fault Nat := do
  match ← p.body with
  | .statements list => return list.length
  | .misfit (.str s) => return s.length
  | .misfit tree => throw ⟨.type, "object of type '" ++ tree.nodeKind ++ "' has no len()"⟩

end Program

namespace Run

variable {β : Type} [Port β]

def readGauges : RunOn β Snapshot := do
  let vitals ← Port.call (.read .vitals)
  let environment ← Port.call (.read .environment)
  let inventory ← Port.call (.read .inventory)
  let isFull ← Port.call (.read .isFull)
  let needsToEat ← Port.call (.read .needsToEat)
  let healthLow ← Port.call (.read .healthLow)
  let hungerLow ← Port.call (.read .hungerLow)
  return .ofPanels fun
    | .vitals => vitals
    | .environment => environment
    | .inventory => inventory
    | .isFull => isFull
    | .needsToEat => needsToEat
    | .healthLow => healthLow
    | .hungerLow => hungerLow

/-- Writes the readings into the context. Readings that the bot refuses are kept from before, while
one that has no value is a fault. -/
def refresh : RunOn β Unit := do
  let snapshot ← match ← attempt readGauges with
    | .ok s => pure (some s)
    | .error t => do
      log .warning ("Could not read telemetry, keeping previous system variables: " ++ t.text)
      pure none
  let now := (← get).now
  changeContext fun c => (c.update snapshot now).mapError .fault

/-- A program in full: the readings, then its statements. -/
def program (body : Body) : RunOn β Unit := do
  refresh
  block body

end Run

namespace Machine

variable {β : Type}

def markComplete (m : Machine β) : Machine β := { m with context := m.context.markComplete m.now }

def finish (m : Machine β) (phase : Phase) : Machine β := { m with phase := phase, running := false }

def complete (m : Machine β) : Machine β :=
  let m := m.markComplete
  (m.finish .completed).log .info
    ("Execution completed in " ++ Number.fixedText 0 (m.context.elapsed m.now) ++ "ms")

def halted (m : Machine β) : Machine β :=
  (m.markComplete.finish .stopped).log .warning "Execution stopped"

variable [Port β]

def abort (m : Machine β) (e : ScriptError) : Machine β :=
  let m := { m with context := m.context.recordError e.text, bot := Port.settle e m.bot }
  (m.markComplete.finish .failed).log .warning e.text

/-- What a run comes to by the way it ended. -/
def ended : EStateM.Result Halt (Machine β) Unit → Except Fault Outcome × Machine β
  | .ok () m => (.ok .success, m.complete)
  | .error .stopped m => (.ok .stopped, m.halted)
  | .error (.trouble (.error e)) m => (.ok (.error e.text), m.abort e)
  | .error (.trouble (.fault f)) m => (.error f, m.finish .failed)

/-- Runs a block on a machine that has begun. -/
def runBody (m : Machine β) (body : Body) : Except Fault Outcome × Machine β :=
  ended (Run.program body m)

/-- Runs a program to its end, an error or a stop. Faults break it off. A tree that announces no
number of statements does so before the run has begun, and leaves the machine busy. -/
def execute (m : Machine β) (p : Program) : Except Fault Outcome × Machine β :=
  match m.begin with
  | .error f => (.error f, m)
  | .ok m =>
    match p.body, p.size with
    | .ok body, .ok n =>
      (m.log .info ("Executing program with " ++ toString n ++ " statements")).runBody body
    | .error f, _ => (.error f, m)
    | _, .error f => (.error f, m)

/-- Runs a program on a machine of its own with the same bot and time, and with the same context if
that is to be shared. -/
def executeApart (m : Machine β) (p : Program) (share : Bool) :
    Except Fault Outcome × Machine β :=
  let other := { fresh m.bot m.settings m.clock with output := m.output }
  let (outcome, other) :=
    (if share then { other with context := m.context } else other).execute p
  (outcome, { m with
    bot := other.bot
    clock := other.clock
    output := other.output
    context := if share then other.context else m.context })

/-- Reads the gauges of the bot into the context outside of a run. -/
def refresh (m : Machine β) : Except Trouble Unit × Machine β :=
  match Run.attempt Run.refresh m with
  | .ok r m => (r, m)
  | .error _ m => (.ok (), m)

end Machine

end AgentScript

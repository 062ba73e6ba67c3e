import AgentScript.Machine.Site

/-! What each command does. A command that the world does not allow fails with a message; errors of
the script in its arguments end the run. -/
namespace AgentScript

namespace CommandResult

def done (message : String) : CommandResult := ⟨true, message, 0⟩

def failed (message : String) : CommandResult := ⟨false, message, 0⟩

end CommandResult

namespace Run

variable {β : Type}

/-- Looks for a site and acts there. An obstacle makes the command fail. -/
def atSite {α : Type} (search : Search β α) (act : α → RunOn β CommandResult) :
    RunOn β CommandResult := do
  match ← search.run with
  | .ok site => act site
  | .error o => return .failed o.message

/-- Acts on the world. All trouble in between makes the command fail. -/
def act (verb : String) (part : RunOn β Unit) (success : String) : RunOn β CommandResult := do
  match ← attempt part with
  | .ok () => return .done success
  | .error t => return .failed (verb ++ " failed: " ++ t.text)

/-- An argument that has to be a number. -/
def coordinate (command : String) (e : Expr) : RunOn β Float := do
  match ← evaluate e with
  | .number x => return x
  | v => fail (.error (.locatedAt (.coordinate command v.kind) e.loc))

def point (command : String) (x y z : Expr) : RunOn β Point := do
  let x ← coordinate command x
  let y ← coordinate command y
  let z ← coordinate command z
  return ⟨x, y, z⟩

def argumentText (e : Expr) : RunOn β String := do
  return (← evaluate e).text

/-- How many items to drop: one, unless a number of at least one is given. Fractions count down. -/
def dropCount (count : Option Expr) : RunOn β Int := do
  match count with
  | none => return 1
  | some e =>
    match ← evaluate e with
    | .number x =>
      if x.isFinite && 1 ≤ x then return Number.floor x
      else fail (.error (.locatedAt (.dropCount (.number x)) e.loc))
    | v => fail (.error (.locatedAt (.dropCount v) e.loc))

def pointText (p : Point) : String :=
  "(" ++ Number.scriptText p.x ++ ", " ++ Number.scriptText p.y ++ ", " ++ Number.scriptText p.z
    ++ ")"

def sleep (seconds : Float) : RunOn β CommandResult := do
  if 0 < seconds then modify fun m => m.waitUntil (m.clock + seconds)
  return .done ("Waited " ++ Number.scriptText seconds ++ " seconds")

def wait (seconds : Expr) : RunOn β CommandResult := do
  match ← evaluate seconds with
  | .number x =>
    if x.isFinite && 0 ≤ x then sleep x
    else fail (.error (.locatedAt (.waitSeconds (.number x)) seconds.loc))
  | v => fail (.error (.locatedAt (.waitSeconds v) seconds.loc))

variable [Port β]

def sayText (text : String) : RunOn β CommandResult := do
  Port.call (.say text)
  return .done ("Said: \"" ++ text ++ "\"")

def say (message : Expr) : RunOn β CommandResult := do
  sayText (← argumentText message)

def travelTo (target : Point) : RunOn β CommandResult := do
  let timedOut : CommandResult := .failed ("Goto failed: timed out after "
    ++ Number.scriptText (← get).settings.gotoTimeout ++ " seconds")
  match ← attempt (Port.call (.goto target)) with
  | .ok true => return .done ("Successfully moved to " ++ pointText target)
  | .ok false => return timedOut
  | .error (.fault ⟨.timeout, _⟩) => return timedOut
  | .error t => return .failed ("Goto failed: " ++ t.text)

def goto (x y z : Expr) : RunOn β CommandResult := do
  travelTo (← point "GOTO" x y z)

def attackNamed (target : String) : RunOn β CommandResult :=
  atSite (.targetNamed target) fun entity =>
    act "Attack" (Port.call (.attack entity)) ("Attacked " ++ target ++ " (" ++ entity.type ++ ")")

def attack (target : Expr) : RunOn β CommandResult := do
  attackNamed (← argumentText target)

def hold (item : Item) : RunOn β Unit := do
  Port.call (.equip item (← get).settings.equipDestination)

/-- Digs a block, with the best tool for it that the bot has. -/
def digBlock (block : Block) : RunOn β Unit := do
  match ← Port.call (.bestTool block) with
  | some tool => hold tool
  | none => pure ()
  Port.call (.dig block)

def digNearest (kind : Option String) : RunOn β CommandResult := do
  let reach := (← get).settings.reach
  atSite (.digSite reach kind) fun block => act "Dig" (digBlock block) ("Dug " ++ block.name)

def dig (kind : Option Expr) : RunOn β CommandResult := do
  digNearest (← kind.mapM argumentText)

/-- Puts the item of a spot on top of its support. -/
def fill (spot : Spot) : RunOn β Unit := do
  hold spot.item
  Port.call (.place spot.support Point.up)

def placeNamed (name : String) (given : Option Point) : RunOn β CommandResult := do
  let reach := (← get).settings.reach
  atSite (.spot reach name given) fun spot =>
    act "Place" (fill spot) ("Placed " ++ name ++ " at " ++ pointText spot.position)

/-- Coordinates count only if all three are given. -/
def place (item : Expr) (x y z : Option Expr) : RunOn β CommandResult := do
  let name ← argumentText item
  match x, y, z with
  | some x, some y, some z => placeNamed name (some (← point "PLACE" x y z))
  | _, _, _ => placeNamed name none

def equipNamed (name : String) : RunOn β CommandResult :=
  atSite (.carried name) fun item => act "Equip" (hold item) ("Equipped " ++ name)

def equip (item : Expr) : RunOn β CommandResult := do
  equipNamed (← argumentText item)

/-- Drops some items of a name, as far as there are as many of them in one place. -/
def dropNamed (name : String) (wanted : Int) : RunOn β CommandResult :=
  atSite (.carried name) fun item =>
    let count := min wanted item.count
    act "Drop" (Port.call (.toss item.type count)) ("Dropped " ++ toString count ++ " " ++ name)

def drop (item : Expr) (count : Option Expr) : RunOn β CommandResult := do
  let name ← argumentText item
  dropNamed name (← dropCount count)

def carryOut : Command → RunOn β CommandResult
  | .say _ message => say message
  | .goto _ x y z => goto x y z
  | .attack _ target => attack target
  | .dig _ kind => dig kind
  | .place _ item x y z => place item x y z
  | .equip _ item => equip item
  | .drop _ item count => drop item count
  | .wait _ seconds => wait seconds
  | .misfit tree => fail (Cause.strayCommand tree.nodeKind).trouble

/-- Carries out a command and measures its time. A fault of the host makes the command fail, while
an error of the script ends the run. -/
def command (c : Command) : RunOn β CommandResult := do
  let start := (← get).clock
  let result ← match ← attempt (carryOut c) with
    | .ok result => pure result
    | .error (.fault f) => pure (.failed f.summary)
    | .error t => fail t
  return { result with duration := ((← get).clock - start) * 1000 }

end Run

end AgentScript

import AgentScript.Machine

/-! What runs ask of a bot, and how the bot of the in-memory world answers. -/
namespace AgentScript

/-- What a run can ask of a bot, by the type of the answer: effects on the world, questions about
it, and readings. -/
inductive Operation : Type → Type
  | say (text : String) : Operation Unit
  /-- Whether the bot arrives before its time is up. -/
  | goto (target : Point) : Operation Bool
  | attack (entity : Entity) : Operation Unit
  | dig (block : Block) : Operation Unit
  | place (reference : Block) (face : Point) : Operation Unit
  | equip (item : Item) (destination : String) : Operation Unit
  | toss (type count : Int) : Operation Unit
  | position : Operation Point
  /-- The nearest entity that a target names. -/
  | nearestEntity (target : String) : Operation (Option Entity)
  /-- The nearest block of a kind, or of any. -/
  | nearestBlock (kind : Option String) : Operation (Option Block)
  /-- The block at a position. A bot that has nothing on record there may answer with `unseen`. -/
  | lookAt (p : Point) (unseen : Block) : Operation (Option Block)
  | findItem (name : String) : Operation (Option Item)
  | bestTool (block : Block) : Operation (Option Item)
  | read (panel : Panel) : Operation (Gauge → Json)

/-- A kind of bot. What it does when it is asked for something is a part of a run: it may change,
take time and fail. -/
class Port (β : Type) where
  call : {α : Type} → Operation α → RunOn β α
  /-- A bot keeps the errors that it reported, with the places that they were given. -/
  settle : ScriptError → β → β

namespace Run

/-- Whether a journey ends in time. At the limit itself the time is up. -/
def inTime (now delay timeout : Float) : Bool :=
  delay ≤ 0 || delay.isNaN || now + delay < now + timeout

def arrive (target : Point) : Run Bool := do
  modify fun m => { m with bot := m.bot.arriveAt target }
  modify (·.print ("[goto] " ++ Number.scriptText target.x ++ " "
    ++ Number.scriptText target.y ++ " " ++ Number.scriptText target.z))
  return true

/-- Sets out, and waits until the bot arrives or until the time for it is up. -/
def travel (target : Point) : Run Bool := do
  request (.goto target.x target.y target.z)
  let m ← get
  if inTime m.clock m.bot.gotoDelay m.settings.gotoTimeout then
    if 0 < m.bot.gotoDelay then
      modify fun m' => m'.waitUntil (m'.clock + m.bot.gotoDelay)
      arrive target
    else arrive target
  else
    modify fun m' => m'.waitUntil (m'.clock + m.settings.gotoTimeout)
    return false

/-- A journey for which there is no time at all is over before the bot sets out. -/
def journey (target : Point) : Run Bool := do
  modify fun m => m.waitUntil m.clock
  if (← get).settings.gotoTimeout ≤ 0 then return false
  else travel target

def placeOn (reference : Block) (face : Point) : Run Unit := do
  perform (.place reference face) (·.placeOn reference face)
    (some ("[place] " ++ (← get).bot.inHand))

/-- Drops some items of a type. What is printed names the first item of that type. -/
def toss (type count : Int) : Run Unit := do
  let line := ((← get).bot.items.find? (·.type = type)).map fun item =>
    "[drop] " ++ toString count ++ " " ++ item.name
  perform (.toss type count) (·.discard type count) line

/-- Reads an instrument. Only readings of the vital signs are recorded. -/
def readPanel (panel : Panel) : Run (Gauge → Json) := do
  if panel = .vitals then request .vitals
  ask (·.readPanel panel)

/-- What the bot of the in-memory world does when it is asked for something. -/
def operate : {α : Type} → Operation α → Run α
  | _, .say text => perform (.say text) (·.hear text) (some text)
  | _, .goto target => journey target
  | _, .attack entity => perform (.attack entity) id (some ("[attack] " ++ entity.name))
  | _, .dig block => perform (.dig block) (·.removeBlock block) (some ("[dig] " ++ block.name))
  | _, .place reference face => placeOn reference face
  | _, .equip item destination =>
    perform (.equip item destination) (·.hold item) (some ("[equip] " ++ item.name))
  | _, .toss type count => toss type count
  | _, .position => ask (·.whereabouts)
  | _, .nearestEntity target => ask (·.nearestEntity target)
  | _, .nearestBlock kind => ask (·.nearestBlock kind)
  | _, .lookAt p unseen => ask (·.lookAt p unseen)
  | _, .findItem name => ask (·.findItem name)
  | _, .bestTool block => ask (·.bestTool block)
  | _, .read panel => readPanel panel

end Run

instance : Port Bot where
  call := Run.operate
  settle e bot := bot.settle e

end AgentScript

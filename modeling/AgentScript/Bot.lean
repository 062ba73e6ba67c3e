import AgentScript.Bot.Point
import AgentScript.Error
import AgentScript.Telemetry

/-! The bot and its world: what it holds, what is around it, what it was asked to do, and which
requests it refuses. -/
namespace AgentScript

structure Entity where
  name : String
  type : String
  position : Point
  displayName : Option String := none
  username : Option String := none
deriving DecidableEq, Repr

/-- A target names an entity by any of its identifiers. -/
def Entity.matches (e : Entity) (target : String) : Bool :=
  target = e.name || some target = e.displayName || target = e.type || some target = e.username

structure Item where
  name : String
  type : Int
  count : Int
deriving DecidableEq, Repr

structure Block where
  name : String
  position : Point
deriving DecidableEq, Repr

namespace Block

def air : String := "air"

/-- The kinds of block that no tool can dig. -/
def undiggable : List String := [air, "water", "lava"]

end Block

/-- A request that the bot was asked to carry out, with what it was given. An item is kept as it was at
the time of the call: its count does not go down when some of it is tossed later. -/
inductive Call
  | vitals
  | say (text : String)
  | goto (x y z : Float)
  | attack (entity : Entity)
  | dig (block : Block)
  | place (reference : Block) (face : Point)
  | equip (item : Item) (destination : String)
  | toss (type : Int) (count : Int)
deriving DecidableEq, Repr

def Call.request : Call → Request
  | vitals => .vitals
  | say _ => .say
  | goto .. => .goto
  | attack _ => .attack
  | dig _ => .dig
  | place .. => .place
  | equip .. => .equip
  | toss .. => .toss

/-- Why the bot refuses a request: a fault, or a failure that it reports as an error of the script,
with a place as far as it knows one. -/
inductive Refusal
  | fault (f : Fault)
  | failure (text : String) (line column : Option Int)
deriving DecidableEq, Repr

def Refusal.trouble (request : Request) : Refusal → Trouble
  | fault f => .fault f
  | failure text line column => .error ⟨.refused request text, line, column⟩

/-- The vital signs, as data: a bot may report anything. -/
structure Vitals where
  health : Json
  hunger : Json
  saturation : Json := .real 0
  oxygen : Json := .real 20
  experienceLevel : Json := .int 0
  inDanger : Json := .bool false
deriving Repr

structure Bot where
  position : Point := ⟨0, 64, 0⟩
  entities : List Entity := []
  /-- No two blocks have the same position. -/
  blocks : List Block := []
  /-- Positions where the bot sees no block, not even air. -/
  void : List Point := []
  items : List Item := []
  equipped : Option String := none
  /-- The tool for each kind of block. -/
  bestTools : List (String × String) := []
  refusals : List (Request × Refusal) := []
  /-- The seconds that a journey takes. -/
  gotoDelay : Float := 0
  totalSlots : Int := 36
  vitals : Vitals := { health := .int 20, hunger := .int 20, saturation := .int 5 }
  lightLevel : Json := .int 15
  isNight : Json := .bool false
  timeOfDay : Json := .int 6000
  isRaining : Json := .bool false
  messages : Array String := #[]
  calls : Array Call := #[]
  /-- Whether chat and effects are also printed. -/
  echo : Bool := false
deriving Repr

namespace Bot

def refusal? (b : Bot) (request : Request) : Option Refusal := b.refusals.lookup request

/-- Asks a question, which the bot may refuse to answer. -/
def ask (b : Bot) (request : Request) : Except Trouble Unit :=
  match b.refusal? request with
  | some r => .error (r.trouble request)
  | none => .ok ()

/-- Gives a refusal the place of the error that it became, as long as it is a failure. -/
def settle (b : Bot) (e : ScriptError) : Bot :=
  match e.cause with
  | .refused request text =>
    { b with refusals := b.refusals.map fun (r, refusal) =>
        if r = request then (r, .failure text e.line e.column) else (r, refusal) }
  | _ => b

/-- Faults of measuring count as trouble. -/
def orFault {α : Type} (r : Except Fault α) : Except Trouble α :=
  match r with
  | .ok a => .ok a
  | .error f => .error (.fault f)

def whereabouts (b : Bot) : Except Trouble Point := do
  b.ask .position
  return b.position

def nearestEntity (b : Bot) (target : String) : Except Trouble (Option Entity) := do
  b.ask .nearestEntity
  orFault (nearest? (·.position) b.position (b.entities.filter (·.matches target)))

/-- A block that is worth finding: not air, and of the wanted kind. -/
def wanted (kind : Option String) (block : Block) : Bool :=
  block.name ≠ Block.air && kind.all (block.name = ·)

def nearestBlock (b : Bot) (kind : Option String) : Except Trouble (Option Block) := do
  b.ask .nearestBlock
  orFault (nearest? (·.position) b.position (b.blocks.filter (wanted kind)))

/-- The block at a position, which is `unseen` when none is recorded there. -/
def lookAt (b : Bot) (p : Point) (unseen : Block) : Except Trouble (Option Block) := do
  b.ask .blockAt
  if b.void.any (·.same p) then return none
  return some ((b.blocks.find? (·.position.same p)).getD unseen)

def findItem (b : Bot) (name : String) : Except Trouble (Option Item) := do
  b.ask .findItem
  return b.items.find? (·.name = name)

def bestTool (b : Bot) (block : Block) : Except Trouble (Option Item) := do
  b.ask .bestTool
  match b.bestTools.lookup block.name with
  | none => return none
  | some tool => if tool = "" then return none else b.findItem tool

/-- Whether a reading is less than a bound. Texts and lists have no order with numbers. -/
def readingBelow (v : Json) (bound : Int) : Except Trouble Bool :=
  match v with
  | .bool b => .ok (decide ((if b then 1 else 0) < bound))
  | .int n => .ok (decide (n < bound))
  | .real x => .ok (decide (x < Float.ofInt bound))
  | v => .error (.fault ⟨.type,
      "'<' not supported between instances of '" ++ v.kindName ++ "' and 'int'"⟩)

def countType (b : Bot) (type : String) : Json :=
  .int (b.entities.filter (·.type = type)).length

/-- Bounds of the alarms: below them the bot needs food, is weak, is hungry. -/
def foodBound : Int := 18
def healthBound : Int := 8
def hungerBound : Int := 6

def vitalGauges (b : Bot) : Gauge → Json
  | .health => b.vitals.health
  | .food => b.vitals.hunger
  | .saturation => b.vitals.saturation
  | .oxygen => b.vitals.oxygen
  | .experienceLevel => b.vitals.experienceLevel
  | .isInDanger => b.vitals.inDanger
  | _ => .null

def environmentGauges (b : Bot) : Gauge → Json
  | .x => .real b.position.x
  | .y => .real b.position.y
  | .z => .real b.position.z
  | .lightLevel => b.lightLevel
  | .timeOfDay => b.timeOfDay
  | .isNight => b.isNight
  | .isRaining => b.isRaining
  | .nearbyPlayers => b.countType "player"
  | .nearbyMobs => b.countType "hostile"
  | .nearbyAnimals => b.countType "animal"
  | _ => .null

def usedSlots (b : Bot) : Int := b.items.length

def inventoryGauges (b : Bot) : Gauge → Json
  | .inventoryCount => .int b.usedSlots
  | .inventorySlotsTotal => .int b.totalSlots
  | .inventorySlotsEmpty => .int (b.totalSlots - b.usedSlots)
  | .equippedItem => (b.equipped.map Json.str).getD .null
  | _ => .null

/-- Reads an instrument. Of these questions only the one about the vital signs is recorded, which
the caller does. -/
def readPanel (b : Bot) : Panel → Except Trouble (Gauge → Json)
  | .vitals => .ok b.vitalGauges
  | .environment => do
    b.ask .environment
    return b.environmentGauges
  | .inventory => do
    b.ask .inventory
    return b.inventoryGauges
  | .isFull => do
    b.ask .isFull
    return fun _ => .bool (decide (b.totalSlots ≤ b.usedSlots))
  | .needsToEat => do
    b.ask .needsToEat
    let low ← readingBelow b.vitals.hunger foodBound
    return fun _ => .bool low
  | .healthLow => do
    b.ask .healthLow
    let low ← readingBelow b.vitals.health healthBound
    return fun _ => .bool low
  | .hungerLow => do
    b.ask .hungerLow
    let low ← readingBelow b.vitals.hunger hungerBound
    return fun _ => .bool low

/-- Puts a block into a list. A block at the same position is replaced and keeps its place. -/
def putBlock (block : Block) : List Block → List Block
  | [] => [block]
  | b :: rest => if b.position.same block.position then block :: rest else b :: putBlock block rest

def dropBlock (block : Block) (blocks : List Block) : List Block :=
  blocks.eraseP fun b => b.position.same block.position || b = block

def hear (b : Bot) (text : String) : Bot := { b with messages := b.messages.push text }

def arriveAt (b : Bot) (p : Point) : Bot := { b with position := p }

def removeBlock (b : Bot) (block : Block) : Bot := { b with blocks := dropBlock block b.blocks }

def inHand (b : Bot) : String := b.equipped.getD "unknown"

/-- Puts what is in the bot's hand onto a face of a block. -/
def placeOn (b : Bot) (reference : Block) (face : Point) : Bot :=
  { b with blocks := putBlock ⟨b.inHand, reference.position.shift face⟩ b.blocks }

def hold (b : Bot) (item : Item) : Bot := { b with equipped := some item.name }

/-- Takes some of the first item of a type, and all of it when none is left. -/
def takeItems (type count : Int) : List Item → List Item
  | [] => []
  | item :: rest =>
    if item.type = type then
      if item.count - count ≤ 0 then rest else { item with count := item.count - count } :: rest
    else item :: takeItems type count rest

def discard (b : Bot) (type count : Int) : Bot := { b with items := takeItems type count b.items }

end Bot

end AgentScript

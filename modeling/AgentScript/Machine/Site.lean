import AgentScript.Machine.Port

/-! Sites of commands: what a command needs to find in the world before the bot acts, and the
obstacles that it may meet instead. -/
namespace AgentScript

/-- Why a command cannot be carried out where the bot is and with what it holds. -/
inductive Obstacle
  | noEntity (target : String)
  | noItem (name : String)
  | noBlock (kind : Option String)
  | noBlockBeside
  | undiggable (name : Option String)
  | blockTooFar (name : String) (distance : Float)
  | occupied (name : String)
  | noSupport
  | targetTooFar (distance : Float)
deriving DecidableEq, Repr

namespace Obstacle

/-- Distances are shown with one place. -/
def distanceText (d : Float) : String := Number.fixedText 1 d ++ " blocks"

def message : Obstacle → String
  | noEntity target => "Target entity '" ++ target ++ "' not found"
  | noItem name => "Item '" ++ name ++ "' not found in inventory"
  | noBlock kind =>
    let name := kind.getD ""
    "No " ++ (if name = "" then "block" else "'" ++ name ++ "' block") ++ " found nearby"
  | noBlockBeside => "No block found to place against"
  | undiggable name => "Cannot dig " ++ name.getD "nothing"
  | blockTooFar name d => "Block " ++ name ++ " is too far away (" ++ distanceText d ++ ")"
  | occupied name => "Target position is occupied by " ++ name
  | noSupport => "No solid block below target position"
  | targetTooFar d => "Target position is too far away (" ++ distanceText d ++ ")"

end Obstacle

/-- A place for a block: the item to put there, the block below, and the free position. -/
structure Spot where
  item : Item
  support : Block
  position : Point
deriving DecidableEq, Repr

/-- A search of the world, which may meet an obstacle. -/
abbrev Search (β : Type) : Type → Type := ExceptT Obstacle (RunOn β)

namespace Search

variable {β : Type}

/-- What was found, or the obstacle that nothing was. -/
def found {α : Type} (a : Option α) (o : Obstacle) : Search β α :=
  match a with
  | some a => pure a
  | none => throw o

def refuseIf (bad : Bool) (o : Obstacle) : Search β Unit :=
  if bad then throw o else pure ()

variable [Port β]

def ask {α : Type} (operation : Operation α) : Search β α := ExceptT.lift (Port.call operation)

def distanceTo (p : Point) : Search β Float := do
  let here ← ask .position
  ExceptT.lift (Run.lift (Bot.orFault (here.distance p)))

/-- The block at a position. Where none is recorded there is air. -/
def blockAt (p : Point) : Search β (Option Block) := ask (.lookAt p ⟨Block.air, p⟩)

def targetNamed (target : String) : Search β Entity := do
  found (← ask (.nearestEntity target)) (.noEntity target)

def carried (name : String) : Search β Item := do
  found (← ask (.findItem name)) (.noItem name)

/-- The block to dig: the nearest of a kind, or of any, if it can be dug and is within reach. -/
def digSite (reach : Float) (kind : Option String) : Search β Block := do
  let nearest ← found (← ask (.nearestBlock kind)) (.noBlock kind)
  let block ← found (← ask (.lookAt nearest.position nearest)) (.undiggable none)
  refuseIf (Block.undiggable.contains block.name) (.undiggable (some block.name))
  let distance ← distanceTo block.position
  refuseIf (reach < distance) (.blockTooFar block.name distance)
  return block

def onNearestBlock : Search β Point := do
  let below ← found (← ask (.nearestBlock none)) .noBlockBeside
  return below.position.shift Point.up

/-- The place for a block at a position: free, on top of a block, and within reach. -/
def placeSite (reach : Float) (name : String) (position : Point) : Search β Spot := do
  let item ← carried name
  match ← blockAt position with
  | some block => refuseIf (block.name ≠ Block.air) (.occupied block.name)
  | none => pure ()
  let support ← found (← blockAt (position.shift Point.down)) .noSupport
  refuseIf (support.name = Block.air) .noSupport
  let distance ← distanceTo position
  refuseIf (reach < distance) (.targetTooFar distance)
  return ⟨item, support, position⟩

/-- The place for a block at a position if one is given, and else on top of the nearest block. -/
def spot (reach : Float) (name : String) (given : Option Point) : Search β Spot := do
  let position ← match given with
    | some p => pure p
    | none => onNearestBlock
  placeSite reach name position

end Search

end AgentScript

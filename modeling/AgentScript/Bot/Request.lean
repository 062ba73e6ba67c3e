/-! What a bot can be asked: effects on the world, and questions about it. -/
namespace AgentScript

inductive Request
  | say | goto | attack | dig | place | equip | toss | vitals
  | position | nearestEntity | nearestBlock | blockAt | findItem | bestTool
  | isFull | inventory | environment | needsToEat | healthLow | hungerLow
deriving DecidableEq, Repr

namespace Request

/-- Requests that the bot keeps a record of. The others are plain questions. -/
def recorded : List Request := [say, goto, attack, dig, place, equip, toss, vitals]

def questions : List Request :=
  [position, nearestEntity, nearestBlock, blockAt, findItem, bestTool, isFull, inventory,
    environment, needsToEat, healthLow, hungerLow]

end Request

end AgentScript

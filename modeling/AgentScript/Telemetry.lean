import AgentScript.Json.Convert
import AgentScript.Value

/-! Telemetry: one reading of each gauge of the bot, as data, and the variables that show it. -/
namespace AgentScript

inductive Gauge
  | health | food | saturation | oxygen | experienceLevel
  | x | y | z
  | lightLevel | timeOfDay | isNight | isRaining
  | inventoryCount | inventorySlotsTotal | inventorySlotsEmpty | inventoryFull | equippedItem
  | nearbyPlayers | nearbyMobs | nearbyAnimals
  | isInDanger | needsFood | healthLow | hungerLow
deriving DecidableEq, Repr

/-- The instruments of a bot. Each is read at once and shows some of the gauges. -/
inductive Panel
  | vitals | environment | inventory | isFull | needsToEat | healthLow | hungerLow
deriving DecidableEq, Repr

namespace Gauge

/-- All gauges, in the order in which their variables are written. -/
def all : List Gauge :=
  [health, food, saturation, oxygen, experienceLevel, x, y, z, lightLevel, timeOfDay, isNight,
    isRaining, inventoryCount, inventorySlotsTotal, inventorySlotsEmpty, inventoryFull,
    equippedItem, nearbyPlayers, nearbyMobs, nearbyAnimals, isInDanger, needsFood, healthLow,
    hungerLow]

def name : Gauge → String
  | health => "health"
  | food => "food"
  | saturation => "saturation"
  | oxygen => "oxygen"
  | experienceLevel => "experience_level"
  | x => "x"
  | y => "y"
  | z => "z"
  | lightLevel => "light_level"
  | timeOfDay => "time_of_day"
  | isNight => "is_night"
  | isRaining => "is_raining"
  | inventoryCount => "inventory_count"
  | inventorySlotsTotal => "inventory_slots_total"
  | inventorySlotsEmpty => "inventory_slots_empty"
  | inventoryFull => "inventory_full"
  | equippedItem => "equipped_item"
  | nearbyPlayers => "nearby_players"
  | nearbyMobs => "nearby_mobs"
  | nearbyAnimals => "nearby_animals"
  | isInDanger => "is_in_danger"
  | needsFood => "needs_food"
  | healthLow => "health_low"
  | hungerLow => "hunger_low"

def variableName (g : Gauge) : String := "bot_" ++ g.name

def panel : Gauge → Panel
  | health | food | saturation | oxygen | experienceLevel | isInDanger => .vitals
  | x | y | z | lightLevel | timeOfDay | isNight | isRaining => .environment
  | nearbyPlayers | nearbyMobs | nearbyAnimals => .environment
  | inventoryCount | inventorySlotsTotal | inventorySlotsEmpty | equippedItem => .inventory
  | inventoryFull => .isFull
  | needsFood => .needsToEat
  | healthLow => .healthLow
  | hungerLow => .hungerLow

/-- The gauges that a nested position gives. -/
def isAxis : Gauge → Bool
  | x | y | z => true
  | _ => false

end Gauge

/-- One reading of every gauge. Null means that a gauge was not read. -/
structure Snapshot where
  reading : Gauge → Json

namespace Snapshot

/-- A snapshot from an object with a field per gauge. Other keys do not matter, and an axis that a
nested position names is taken from there. -/
def ofJson (data : Json) : Except Fault Snapshot :=
  match data with
  | .obj _ => .ok ⟨fun g =>
      let nested := if g.isAxis then (data.field? "position").bind (·.field? g.name) else none
      nested.getD ((data.field? g.name).getD .null)⟩
  | _ => .error (.noAttribute data.kindName "items")

/-- What the instruments of a bot show. A hand that holds nothing is shown as such. -/
def ofPanels (shown : Panel → Gauge → Json) : Snapshot where
  reading g :=
    let v := shown g.panel g
    if g = .equippedItem ∧ v.truthy = false then .str "none" else v

/-- The value of one reading: truth values and texts as they are, all else as a number. -/
def valueOf : Json → Except Fault (Option Value)
  | .null => .ok none
  | .bool b => .ok (some (.boolean b))
  | .str s => .ok (some (.string s))
  | v => v.toFloat.map fun x => some (.number x)

/-- The variables that a snapshot defines, in order; none at all if a reading has no value. -/
def toVariables (s : Snapshot) : Except Fault (List (String × Value)) := do
  let values ← Gauge.all.mapM fun g => do
    return (g.variableName, ← valueOf (s.reading g))
  return values.filterMap fun (name, v) => v.map (name, ·)

end Snapshot

end AgentScript

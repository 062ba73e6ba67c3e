import AgentScript.Json.Convert

/-! The settings of a run. -/
namespace AgentScript

structure Settings where
  /-- The longest time that a journey may take, in seconds. -/
  gotoTimeout : Float := 60
  /-- The greatest distance at which the bot digs and places. -/
  reach : Float := 6
  /-- Where the bot holds what it equips. -/
  equipDestination : String := "hand"
  botName : String := "BotScript"
  version : String := "1.0.0"
deriving DecidableEq, Repr

namespace Settings

def numberField (data : Json) (key : String) (otherwise : Float) : Except Fault Float :=
  match data.field? key with
  | some v => v.toFloat
  | none => .ok otherwise

def textField (data : Json) (key : String) (otherwise : String) : String :=
  ((data.field? key).map (·.text)).getD otherwise

def positive (key : String) (x : Float) : Except Fault Unit :=
  if x ≤ 0 then .error ⟨.value, key ++ " must be positive, got " ++ Number.exactText x⟩ else .ok ()

/-- Settings from an object. Fields that it lacks keep their defaults, and other keys do not
matter. -/
def ofJson (data : Json) : Except Fault Settings := do
  match data with
  | .obj _ => pure ()
  | v => throw (.noAttribute v.kindName "get")
  let gotoTimeout ← numberField data "goto_timeout" 60
  let reach ← numberField data "max_interaction_distance" 6
  positive "goto_timeout" gotoTimeout
  positive "max_interaction_distance" reach
  return {
    gotoTimeout := gotoTimeout
    reach := reach
    equipDestination := textField data "equip_destination" "hand"
    botName := textField data "bot_name" "BotScript"
    version := textField data "version" "1.0.0" }

end Settings

end AgentScript

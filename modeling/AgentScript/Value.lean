import AgentScript.Number.Text

/-! The values of the language: numbers, strings and booleans. -/
namespace AgentScript

inductive Value
  | number (x : Float)
  | string (s : String)
  | boolean (b : Bool)
deriving DecidableEq, Repr

inductive Kind
  | number
  | string
  | boolean
deriving DecidableEq, Repr

def Kind.name : Kind → String
  | .number => "number"
  | .string => "string"
  | .boolean => "boolean"

namespace Value

def kind : Value → Kind
  | number _ => .number
  | string _ => .string
  | boolean _ => .boolean

def kindName (v : Value) : String := v.kind.name

/-- How a value is said aloud and joined to a string. -/
def text : Value → String
  | number x => Number.scriptText x
  | string s => s
  | boolean b => if b then "true" else "false"

/-- Zero, not-a-number and the empty string count as false. -/
def truthy : Value → Bool
  | number x => x != 0 && !x.isNaN
  | string s => s ≠ ""
  | boolean b => b

/-- Equality by kind and value: values of different kinds are never equal, and numbers compare as
numbers, so that not-a-number differs from itself. -/
def same : Value → Value → Bool
  | number x, number y => x == y
  | string s, string t => s = t
  | boolean a, boolean b => a = b
  | _, _ => false

end Value

end AgentScript

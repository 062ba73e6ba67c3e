import AgentScript.Number.Text
import AgentScript.Number.Read
import AgentScript.Text.Quoted

/-! Structured data: what settings, telemetry and stored programs are made of. -/
namespace AgentScript

/-- A datum. Integers are kept apart from numbers that were written with a point or an exponent,
and objects keep the order of their keys, each of which occurs once. -/
inductive Json
  | null
  | bool (b : Bool)
  | int (n : Int)
  | real (x : Float)
  | str (s : String)
  | arr (items : List Json)
  | obj (fields : List (String × Json))
deriving Repr

namespace Json

def kindName : Json → String
  | null => "NoneType"
  | bool _ => "bool"
  | int _ => "int"
  | real _ => "float"
  | str _ => "str"
  | arr _ => "list"
  | obj _ => "dict"

/-- Null, false, zeros and whatever is empty count as false. -/
def truthy : Json → Bool
  | null => false
  | bool b => b
  | int n => n ≠ 0
  | real x => x != 0
  | str s => s ≠ ""
  | arr items => !items.isEmpty
  | obj fields => !fields.isEmpty

def field? (key : String) : Json → Option Json
  | obj fields => fields.lookup key
  | _ => none

/-- Sets a key: a new key goes to the end, a present one keeps its place. -/
def setField (key : String) (v : Json) : List (String × Json) → List (String × Json)
  | [] => [(key, v)]
  | (k, w) :: rest => if k = key then (k, v) :: rest else (k, w) :: setField key v rest

mutual

/-- A datum inside another, in a message: strings are quoted. -/
def inner : Json → String
  | null => "None"
  | bool b => if b then "True" else "False"
  | int n => toString n
  | real x => Number.exactText x
  | str s => Text.quoted s
  | arr items => "[" ++ String.intercalate ", " (innerItems items) ++ "]"
  | obj fields => "\x7b" ++ String.intercalate ", " (innerFields fields) ++ "\x7d"

def innerItems : List Json → List String
  | [] => []
  | v :: rest => inner v :: innerItems rest

def innerFields : List (String × Json) → List String
  | [] => []
  | (k, v) :: rest => (Text.quoted k ++ ": " ++ inner v) :: innerFields rest

end

/-- A datum as text: strings as they are, all else as inside a message. -/
def text : Json → String
  | str s => s
  | v => inner v

end Json

end AgentScript

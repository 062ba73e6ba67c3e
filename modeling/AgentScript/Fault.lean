import AgentScript.Text.Quoted

/-! Faults of the host, which carry a kind and a text and have no place in a source. -/
namespace AgentScript

/-- The kinds of faults that come from outside the language: from the bot, from data that cannot be
converted, from files. -/
inductive FaultKind
  | runtime | value | type | key | noAttribute | overflow
  | connection | timeout | fileNotFound | isDirectory | malformedSettings
  | other (name : String)
deriving DecidableEq, Repr

def FaultKind.name : FaultKind → String
  | runtime => "RuntimeError"
  | value => "ValueError"
  | type => "TypeError"
  | key => "KeyError"
  | noAttribute => "AttributeError"
  | overflow => "OverflowError"
  | connection => "ConnectionError"
  | timeout => "TimeoutError"
  | fileNotFound => "FileNotFoundError"
  | isDirectory => "IsADirectoryError"
  | malformedSettings => "YAMLError"
  | other name => name

structure Fault where
  kind : FaultKind
  text : String
deriving DecidableEq, Repr

namespace Fault

/-- The text of a fault, or the name of its kind when it has none. -/
def summary (f : Fault) : String := if f.text = "" then f.kind.name else f.text

def missingKey (key : String) : Fault := ⟨.key, Text.quoted key⟩

def notAMember (value family : String) : Fault :=
  ⟨.value, value ++ " is not a valid " ++ family⟩

def noAttribute (kind name : String) : Fault :=
  ⟨.noAttribute, "'" ++ kind ++ "' object has no attribute '" ++ name ++ "'"⟩

def squareOverflow : Fault := ⟨.overflow, "(34, 'Numerical result out of range')"⟩

end Fault

end AgentScript

import AgentScript.Fault
import AgentScript.Json

/-! Data turned into numbers. Texts that write a number count as that number. -/
namespace AgentScript.Json

/-- At most so many characters of a text are quoted when it is no integer. -/
def quoteLimit : Nat := 200

def toFloat : Json → Except Fault Float
  | bool b => .ok (if b then 1 else 0)
  | int n =>
    match Number.ofInt? n with
    | some x => .ok x
    | none => .error ⟨.overflow, "int too large to convert to float"⟩
  | real x => .ok x
  | str s =>
    match Number.readFloat? s with
    | some x => .ok x
    | none => .error ⟨.value, "could not convert string to float: " ++ Text.quoted s⟩
  | v => .error ⟨.type, "float() argument must be a string or a real number, not '"
      ++ v.kindName ++ "'"⟩

/-- The integer that a datum stands for. Fractions are dropped. -/
def toInt : Json → Except Fault Int
  | bool b => .ok (if b then 1 else 0)
  | int n => .ok n
  | real x =>
    if x.isNaN then .error ⟨.value, "cannot convert float NaN to integer"⟩
    else if x.isInf then .error ⟨.overflow, "cannot convert float infinity to integer"⟩
    else .ok (Number.truncate x)
  | str s =>
    match Number.readInt s with
    | .value n => .ok n
    | .notAnInteger => .error ⟨.value, "invalid literal for int() with base 10: "
        ++ String.ofList ((Text.quotedChars s.toList).take quoteLimit)⟩
    | .tooLong digits => .error ⟨.value,
        "Exceeds the limit (4300 digits) for integer string conversion: value has "
          ++ toString digits
          ++ " digits; use sys.set_int_max_str_digits() to increase the limit"⟩
  | v => .error ⟨.type,
      "int() argument must be a string, a bytes-like object or a real number, not '"
        ++ v.kindName ++ "'"⟩

end AgentScript.Json

import AgentScript.Number.Shortest
import AgentScript.Text.Classes

/-! Numbers read from text. -/
namespace AgentScript.Number

open AgentScript.Text

/-- Drops underscores, each of which must stand between two digits. -/
def dropUnderscores (before : Option Char) : List Char → Option (List Char)
  | [] => if before = some '_' then none else some []
  | c :: cs =>
    if c = '_' then
      if before.any isDigit then dropUnderscores (some c) cs else none
    else if before = some '_' && !isDigit c then none
    else (dropUnderscores (some c) cs).map (c :: ·)

/-- Blanks around a number do not count, and digits of all scripts do. -/
def plainDigits (s : String) : Option (List Char) :=
  dropUnderscores none (trim (s.toList.map latinDigit))

/-- A leading sign: true for minus. -/
def splitSign : List Char → Bool × List Char
  | '-' :: cs => (true, cs)
  | '+' :: cs => (false, cs)
  | cs => (false, cs)

/-- The exponent after its mark: an optional sign and at least one digit. -/
def readExponent (cs : List Char) : Option Int :=
  let (minus, ds) := splitSign cs
  if ds.isEmpty || !ds.all isDigit then none
  else some (if minus then -(digitsValue ds : Int) else (digitsValue ds : Int))

/-- An unsigned decimal: digits with at most one point, at least one digit, and an exponent or
none. -/
def readUnsigned (cs : List Char) : Option Decimal :=
  let intPart := cs.takeWhile isDigit
  let afterInt := cs.dropWhile isDigit
  let (fraction, tail) := match afterInt with
    | '.' :: r => (r.takeWhile isDigit, r.dropWhile isDigit)
    | r => ([], r)
  if intPart.isEmpty && fraction.isEmpty then none
  else
    let exponent := match tail with
      | [] => some 0
      | 'e' :: r => readExponent r
      | 'E' :: r => readExponent r
      | _ => none
    exponent.map fun e => ⟨digitsValue (intPart ++ fraction), e - fraction.length⟩

/-- The number nearest to a decimal. Decimals outside the range go to infinity or to zero. -/
def nearest (d : Decimal) : Float :=
  let size := (digitCount d.digits : Int) + d.exponent
  if d.digits = 0 || size < -340 then 0.0
  else if 400 < size then 1.0 / 0.0
  else Float.ofScientific d.digits (d.exponent < 0) d.exponent.natAbs

/-- Words for the values that have no decimal. -/
def readSpecial (cs : List Char) : Option Float :=
  let word := lower (String.ofList cs)
  if word = "inf" || word = "infinity" then some (1.0 / 0.0)
  else if word = "nan" then some (0.0 / 0.0)
  else none

def readFloat? (s : String) : Option Float := do
  let cs ← plainDigits s
  let (minus, body) := splitSign cs
  let x ← match readUnsigned body with
    | some d => some (nearest d)
    | none => readSpecial body
  return if minus then -x else x

/-- Integers of more digits are refused. -/
def digitLimit : Nat := 4300

inductive ReadInt
  | value (n : Int)
  | notAnInteger
  | tooLong (digits : Nat)

def readInt (s : String) : ReadInt :=
  match plainDigits s with
  | none => .notAnInteger
  | some cs =>
    let (minus, ds) := splitSign cs
    if ds.isEmpty || !ds.all isDigit then .notAnInteger
    else if digitLimit < ds.length then .tooLong ds.length
    else .value (if minus then -(digitsValue ds : Int) else (digitsValue ds : Int))

/-- The number nearest to an integer; none beyond the range. -/
def ofInt? (n : Int) : Option Float :=
  let x := nearest ⟨n.natAbs, 0⟩
  if x.isInf then none else some (if n < 0 then -x else x)

end AgentScript.Number

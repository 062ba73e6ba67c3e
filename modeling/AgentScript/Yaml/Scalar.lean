import AgentScript.Json

/-! Plain scalars of settings files: which texts stand for nothing, for a truth value, or for a
number. All other texts stand for themselves. -/
namespace AgentScript.Yaml

open Text

/-- The words for null, and for truth values in lower case, capitalised or in upper case. -/
def words : List (String × Json) :=
  [("~", .null), ("null", .null), ("Null", .null), ("NULL", .null),
    ("yes", .bool true), ("Yes", .bool true), ("YES", .bool true),
    ("no", .bool false), ("No", .bool false), ("NO", .bool false),
    ("true", .bool true), ("True", .bool true), ("TRUE", .bool true),
    ("false", .bool false), ("False", .bool false), ("FALSE", .bool false),
    ("on", .bool true), ("On", .bool true), ("ON", .bool true),
    ("off", .bool false), ("Off", .bool false), ("OFF", .bool false)]

def digitIn? (base : Nat) (c : Char) : Option Nat :=
  (hexDigit? c).filter (· < base)

/-- The number that digits of a base write. Underscores do not count, but cannot stand alone. -/
def digitsIn? (base : Nat) (cs : List Char) : Option Nat :=
  let digits := cs.filter (· ≠ '_')
  if digits.isEmpty then none
  else digits.foldlM (fun n c => (digitIn? base c).map (base * n + ·)) 0

/-- One place below the highest in base sixty: one digit, or two below sixty. -/
def sixtieth (cs : List Char) : Bool :=
  match cs with
  | [d] => isDigit d
  | [t, d] => '0' ≤ t && t ≤ '5' && isDigit d
  | _ => false

/-- The number that places in base sixty write. The highest place has no bound and no leading
zero. -/
def sexagesimal? (cs : List Char) : Option Nat :=
  match splitAt ':' cs with
  | first :: rest =>
    if rest.isEmpty || first.head? = some '0' || first.head? = some '_' then none
    else if !rest.all sixtieth then none
    else (digitsIn? 10 first).map fun n =>
      rest.foldl (fun n place => 60 * n + digitsValue place) n
  | [] => none

/-- An unsigned integer: with a base mark, with a leading zero in base eight, in base sixty with
colons, or decimal. -/
def natural? (cs : List Char) : Option Nat :=
  match cs with
  | ['0'] => some 0
  | '0' :: 'b' :: r => digitsIn? 2 r
  | '0' :: 'x' :: r => digitsIn? 16 r
  | '0' :: r => digitsIn? 8 ('0' :: r)
  | '_' :: _ => none
  | cs => if cs.contains ':' then sexagesimal? cs else digitsIn? 10 cs

def integer? (cs : List Char) : Option Int :=
  let (minus, body) := Number.splitSign cs
  (natural? body).map fun n => if minus then -(n : Int) else (n : Int)

/-- Digits and underscores that start with a digit. -/
def wholePart (cs : List Char) : Bool :=
  cs.head?.any isDigit && cs.all fun c => isDigit c || c = '_'

/-- What may follow a point: digits and underscores, and an exponent that has its sign. -/
def fractionPart (cs : List Char) : Bool :=
  match cs.dropWhile fun c => isDigit c || c = '_' with
  | [] => true
  | e :: s :: ds =>
    (e = 'e' || e = 'E') && (s = '+' || s = '-') && !ds.isEmpty && ds.all isDigit
  | _ => false

def decimal? (cs : List Char) : Option Float :=
  (Number.readUnsigned (cs.filter (· ≠ '_'))).map Number.nearest

/-- The sum of places in base sixty, the lowest first. -/
def sumPlaces (sum base : Float) : List Float → Float
  | [] => sum
  | x :: rest => sumPlaces (sum + x * base) (base * 60) rest

/-- A number in base sixty whose lowest place has a point. -/
def sexagesimalReal? (whole fraction : List Char) : Option Float :=
  match splitAt ':' whole with
  | first :: rest =>
    if rest.isEmpty || !wholePart first || !rest.all sixtieth then none
    else if !fraction.all fun c => isDigit c || c = '_' then none
    else do
      let places := (first :: rest).dropLast ++ [(first :: rest).getLastD [] ++ '.' :: fraction]
      let values ← places.reverse.mapM decimal?
      return sumPlaces 0 1 values
  | [] => none

/-- An unsigned number with a point. -/
def unsignedReal? (cs : List Char) : Option Float :=
  let whole := cs.takeWhile (· ≠ '.')
  match cs.dropWhile (· ≠ '.') with
  | _ :: fraction =>
    if whole.contains ':' then sexagesimalReal? whole fraction
    else if wholePart whole && fractionPart fraction then decimal? cs
    else none
  | [] => none

/-- A number with a point. Those that begin with it, and not-a-number, have no sign. -/
def real? (cs : List Char) : Option Float :=
  let (minus, body) := Number.splitSign cs
  let word := String.ofList body
  if word = ".inf" || word = ".Inf" || word = ".INF" then
    some (if minus then -1.0 / 0.0 else 1.0 / 0.0)
  else
    match cs with
    | '.' :: r =>
      let word := String.ofList r
      if word = "nan" || word = "NaN" || word = "NAN" then some (0.0 / 0.0)
      else if r.head?.any isDigit && fractionPart r then decimal? cs
      else none
    | _ => (unsignedReal? body).map fun x => if minus then -x else x

/-- What a plain scalar stands for. A lone equals sign is reserved. -/
def plain? (cs : List Char) : Option Json :=
  let s := String.ofList cs
  if s = "=" then none
  else
    match words.lookup s, real? cs, integer? cs with
    | some v, _, _ => some v
    | none, some x, _ => some (.real x)
    | none, none, some n => some (.int n)
    | none, none, none => some (.str s)

end AgentScript.Yaml

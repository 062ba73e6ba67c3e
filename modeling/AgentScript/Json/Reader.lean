import AgentScript.Json

/-! Reading data from text. A failure names the first place where the text goes wrong. -/
namespace AgentScript.Json

open Text

inductive Flaw
  | noValue
  | noKey
  | noColon
  | noComma
  | trailing
  | unterminated
  | badEscape
  | badCodePoint
  | controlCharacter
  | byteOrderMark
  | tooManyDigits (digits : Nat)
deriving DecidableEq, Repr

/-- A flaw, and the text that remains from its place on. -/
structure Failure where
  flaw : Flaw
  rest : List Char

def Flaw.text : Flaw → String
  | noValue => "Expecting value"
  | noKey => "Expecting property name enclosed in double quotes"
  | noColon => "Expecting ':' delimiter"
  | noComma => "Expecting ',' delimiter"
  | trailing => "Extra data"
  | unterminated => "Unterminated string starting at"
  | badEscape => "Invalid \\escape"
  | badCodePoint => "Invalid \\uXXXX escape"
  | controlCharacter => "Invalid control character at"
  | byteOrderMark => "Unexpected UTF-8 BOM (decode using utf-8-sig)"
  | tooManyDigits n =>
    "Exceeds the limit (4300 digits) for integer string conversion: value has " ++ toString n
      ++ " digits; use sys.set_int_max_str_digits() to increase the limit"

/-- Names the line, the column and the offset of the flaw in the whole text. -/
def Failure.message (source : List Char) (f : Failure) : String :=
  match f.flaw with
  | .tooManyDigits _ => f.flaw.text
  | _ =>
    let offset := source.length - f.rest.length
    let before := source.take offset
    let line := before.count '\n' + 1
    let column := (before.reverse.takeWhile (· ≠ '\n')).length + 1
    f.flaw.text ++ ": line " ++ toString line ++ " column " ++ toString column
      ++ " (char " ++ toString offset ++ ")"

def isSpace (c : Char) : Bool := c = ' ' || c = '\t' || c = '\n' || c = '\r'

def skip (cs : List Char) : List Char := cs.dropWhile isSpace

def hexFour? : List Char → Option (Nat × List Char)
  | a :: b :: c :: d :: r => do
    let a ← hexDigit? a
    let b ← hexDigit? b
    let c ← hexDigit? c
    let d ← hexDigit? d
    return (((a * 16 + b) * 16 + c) * 16 + d, r)
  | _ => none

/-- Joins the two halves of a code point beyond the sixteen-bit range. -/
def surrogatePair (high low : Nat) : Char :=
  Char.ofNat (0x10000 + (high - 0xD800) * 0x400 + (low - 0xDC00))

def simpleEscape? (c : Char) : Option Char :=
  if c = quoteMark || c = backslash || c = '/' then some c
  else if c = 'b' then some '\x08'
  else if c = 'f' then some '\x0c'
  else if c = 'n' then some '\n'
  else if c = 'r' then some '\r'
  else if c = 't' then some '\t'
  else none

/-- The character that a first half makes with the escape after it, if that is a second half. -/
def secondHalf (high : Nat) (rest : List Char) : Except Failure (Option (Char × List Char)) :=
  if 0xD800 ≤ high && high < 0xDC00 then
    match rest with
    | '\\' :: 'u' :: more =>
      match hexFour? more with
      | none => if more.length < 5 then .ok none else .error ⟨.badCodePoint, 'u' :: more⟩
      | some (_, []) => .ok none
      | some (low, rest') =>
        if 0xDC00 ≤ low && low < 0xE000 then .ok (some (surrogatePair high low, rest'))
        else .ok none
    | _ => .ok none
  else .ok none

/-- The characters of a string after its opening mark, up to the closing one. `opening` is the text
from the opening mark on; the fuel is the length of the text. -/
def stringBody (opening : List Char) (fuel : Nat) (cs : List Char) (out : List Char) :
    Except Failure (List Char × List Char) :=
  match fuel, cs with
  | 0, _ => .error ⟨.unterminated, opening⟩
  | _, [] => .error ⟨.unterminated, opening⟩
  | fuel + 1, c :: r =>
    if c = quoteMark then .ok (out.reverse, r)
    else if c.toNat < 0x20 then .error ⟨.controlCharacter, c :: r⟩
    else if c ≠ backslash then stringBody opening fuel r (c :: out)
    else
      match r with
      | [] => .error ⟨.unterminated, opening⟩
      | 'u' :: digits =>
        match hexFour? digits with
        | none => .error ⟨.badCodePoint, r⟩
        | some (_, []) => .error ⟨.badCodePoint, r⟩
        | some (high, rest) =>
          match secondHalf high rest with
          | .error f => .error f
          | .ok none => stringBody opening fuel rest (Char.ofNat high :: out)
          | .ok (some (c, rest)) => stringBody opening fuel rest (c :: out)
      | e :: r' =>
        match simpleEscape? e with
        | some d => stringBody opening fuel r' (d :: out)
        | none => .error ⟨.badEscape, c :: r⟩

/-- The exponent of a number, when its mark, an optional sign and a digit follow. -/
def exponentPart (cs : List Char) : List Char × List Char :=
  match cs with
  | e :: r =>
    if e = 'e' || e = 'E' then
      let (sign, digits) := match r with
        | s :: r' => if s = '+' || s = '-' then ([s], r') else ([], r)
        | [] => ([], [])
      if (digits.takeWhile isDigit).isEmpty then ([], cs)
      else (e :: sign ++ digits.takeWhile isDigit, digits.dropWhile isDigit)
    else ([], cs)
  | [] => ([], [])

/-- The fraction of a number, when a point and a digit follow. -/
def fractionPart (cs : List Char) : List Char × List Char :=
  match cs with
  | '.' :: d :: r =>
    if isDigit d then ('.' :: d :: r.takeWhile isDigit, r.dropWhile isDigit) else ([], cs)
  | _ => ([], cs)

def number (start : List Char) (minus : Bool) (cs : List Char) :
    Except Failure (Json × List Char) :=
  let whole := match cs with
    | '0' :: _ => ['0']
    | _ => cs.takeWhile isDigit
  if whole.isEmpty then .error ⟨.noValue, start⟩
  else
    let (fraction, afterFraction) := fractionPart (cs.drop whole.length)
    let (exponent, rest) := exponentPart afterFraction
    if fraction.isEmpty && exponent.isEmpty then
      if Number.digitLimit < whole.length then .error ⟨.tooManyDigits whole.length, start⟩
      else
        let n : Int := digitsValue whole
        .ok (.int (if minus then -n else n), rest)
    else
      let decimal := (Number.readUnsigned (whole ++ fraction ++ exponent)).getD ⟨0, 0⟩
      let x := Number.nearest decimal
      .ok (.real (if minus then -x else x), rest)

def words : List (String × Json) :=
  [("null", null), ("true", bool true), ("false", bool false), ("NaN", real (0.0 / 0.0)),
    ("Infinity", real (1.0 / 0.0)), ("-Infinity", real (-1.0 / 0.0))]

def word? (cs : List Char) : Option (Json × List Char) :=
  words.findSome? fun (w, v) =>
    let w := w.toList
    if cs.take w.length = w then some (v, cs.drop w.length) else none

mutual

/-- The datum at the head of a text. A datum and a place in a list or an object take one unit of
fuel each, and of the two one takes a character. -/
def value (fuel : Nat) (cs : List Char) : Except Failure (Json × List Char) :=
  match fuel with
  | 0 => .error ⟨.noValue, cs⟩
  | fuel + 1 =>
    match cs with
    | [] => .error ⟨.noValue, []⟩
    | c :: r =>
      if c = quoteMark then do
        let (s, rest) ← stringBody cs r.length r []
        return (.str (String.ofList s), rest)
      else if c = '\x7b' then
        match skip r with
        | '\x7d' :: rest => .ok (.obj [], rest)
        | r => fields fuel r []
      else if c = '[' then
        match skip r with
        | ']' :: rest => .ok (.arr [], rest)
        | r => items fuel r []
      else
        match word? cs with
        | some found => .ok found
        | none => if c = '-' then number cs true r else number cs false cs

def items (fuel : Nat) (cs : List Char) (out : List Json) : Except Failure (Json × List Char) :=
  match fuel with
  | 0 => .error ⟨.noValue, cs⟩
  | fuel + 1 => do
    let (v, r) ← value fuel cs
    match skip r with
    | ']' :: rest => .ok (.arr (v :: out).reverse, rest)
    | ',' :: rest => items fuel (skip rest) (v :: out)
    | r => .error ⟨.noComma, r⟩

/-- The members of an object, from the first or after a comma. A later value of a key replaces an
earlier one. -/
def fields (fuel : Nat) (cs : List Char) (out : List (String × Json)) :
    Except Failure (Json × List Char) :=
  match fuel with
  | 0 => .error ⟨.noValue, cs⟩
  | fuel + 1 =>
    match cs with
    | [] => .error ⟨.noKey, []⟩
    | c :: r =>
      if c ≠ quoteMark then .error ⟨.noKey, cs⟩
      else do
        let (k, r) ← stringBody cs r.length r []
        match skip r with
        | ':' :: r =>
          let (v, r) ← value fuel (skip r)
          let out := setField (String.ofList k) v out
          match skip r with
          | '\x7d' :: rest => .ok (.obj out, rest)
          | ',' :: rest => fields fuel (skip rest) out
          | r => .error ⟨.noComma, r⟩
        | r => .error ⟨.noColon, r⟩

end

/-- Reads one datum and nothing else. -/
def read (source : List Char) : Except Failure Json :=
  match source with
  | '\ufeff' :: _ => .error ⟨.byteOrderMark, source⟩
  | _ => do
    let (v, rest) ← value (2 * source.length + 2) (skip source)
    match skip rest with
    | [] => .ok v
    | rest => .error ⟨.trailing, rest⟩

end AgentScript.Json

import AgentScript.Json

/-! Writing data: indented for files, and on one line. -/
namespace AgentScript.Json

open Text

/-- Escapes are written only for the marks, the backslash and control characters. -/
def escapeChar (c : Char) : List Char :=
  if c = quoteMark then [backslash, quoteMark]
  else if c = backslash then [backslash, backslash]
  else if c = '\n' then [backslash, 'n']
  else if c = '\r' then [backslash, 'r']
  else if c = '\t' then [backslash, 't']
  else if c = '\x08' then [backslash, 'b']
  else if c = '\x0c' then [backslash, 'f']
  else if c.toNat < 0x20 then backslash :: 'u' :: hex 4 c.toNat
  else [c]

def stringChars (s : String) : List Char :=
  quoteMark :: s.toList.flatMap escapeChar ++ [quoteMark]

/-- Numbers are exact; the values that have no decimal are spelled out. -/
def numberChars (x : Float) : List Char :=
  if x.isNaN then "NaN".toList
  else if x.isInf then (if Number.negative x then "-Infinity" else "Infinity").toList
  else (Number.exactText x).toList

/-- A line break and the indentation of a depth, two blanks a level. -/
def lineBreak (depth : Nat) : List Char := '\n' :: List.replicate (2 * depth) ' '

mutual

/-- A datum over several lines, as it stands at a depth of nesting. -/
def indentedChars (depth : Nat) : Json → List Char
  | null => "null".toList
  | bool b => (if b then "true" else "false").toList
  | int n => (toString n).toList
  | real x => numberChars x
  | str s => stringChars s
  | arr [] => "[]".toList
  | arr (v :: rest) =>
    '[' :: lineBreak (depth + 1) ++ indentedChars (depth + 1) v
      ++ indentedItems (depth + 1) rest ++ lineBreak depth ++ [']']
  | obj [] => "\x7b\x7d".toList
  | obj ((k, v) :: rest) =>
    '\x7b' :: lineBreak (depth + 1) ++ stringChars k ++ [':', ' '] ++ indentedChars (depth + 1) v
      ++ indentedFields (depth + 1) rest ++ lineBreak depth ++ ['\x7d']

def indentedItems (depth : Nat) : List Json → List Char
  | [] => []
  | v :: rest => ',' :: lineBreak depth ++ indentedChars depth v ++ indentedItems depth rest

def indentedFields (depth : Nat) : List (String × Json) → List Char
  | [] => []
  | (k, v) :: rest =>
    ',' :: lineBreak depth ++ stringChars k ++ [':', ' '] ++ indentedChars depth v
      ++ indentedFields depth rest

end

def indented (v : Json) : String := String.ofList (indentedChars 0 v)

mutual

def compactPieces : Json → List String
  | arr items => "[" :: compactItems true items ++ ["]"]
  | obj fields => "\x7b" :: compactFields true fields ++ ["\x7d"]
  | null => ["null"]
  | bool b => [if b then "true" else "false"]
  | int n => [toString n]
  | real x => [String.ofList (numberChars x)]
  | str s => [String.ofList (stringChars s)]

def compactItems (leading : Bool) : List Json → List String
  | [] => []
  | v :: rest => (if leading then "" else ",") :: compactPieces v ++ compactItems false rest

def compactFields (leading : Bool) : List (String × Json) → List String
  | [] => []
  | (k, v) :: rest =>
    (if leading then "" else ",") :: String.ofList (stringChars k) :: ":" :: compactPieces v
      ++ compactFields false rest

end

def compact (v : Json) : String := String.join (compactPieces v)

end AgentScript.Json

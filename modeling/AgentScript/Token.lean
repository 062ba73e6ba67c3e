import AgentScript.Location
import AgentScript.Text.Classes
import AgentScript.Text.Quoted

/-! Tokens: their kinds, their spellings, and how messages and listings show them. -/
namespace AgentScript

inductive Keyword
  | varWord | setWord | ifWord | elseWord | repeatWord | trueWord | falseWord
  | andWord | orWord | notWord
  | sayWord | gotoWord | attackWord | digWord | placeWord | equipWord | dropWord | waitWord
deriving DecidableEq, Repr

namespace Keyword

def all : List Keyword :=
  [varWord, setWord, ifWord, elseWord, repeatWord, trueWord, falseWord, andWord, orWord, notWord,
    sayWord, gotoWord, attackWord, digWord, placeWord, equipWord, dropWord, waitWord]

/-- The canonical spelling. Sources may use any mixture of letter cases. -/
def spelling : Keyword → String
  | varWord => "VAR"
  | setWord => "SET"
  | ifWord => "IF"
  | elseWord => "ELSE"
  | repeatWord => "REPEAT"
  | trueWord => "TRUE"
  | falseWord => "FALSE"
  | andWord => "AND"
  | orWord => "OR"
  | notWord => "NOT"
  | sayWord => "SAY"
  | gotoWord => "GOTO"
  | attackWord => "ATTACK"
  | digWord => "DIG"
  | placeWord => "PLACE"
  | equipWord => "EQUIP"
  | dropWord => "DROP"
  | waitWord => "WAIT"

def ofWord? (word : List Char) : Option Keyword :=
  all.find? fun k => k.spelling.toList = word.map Char.toUpper

def isCommand : Keyword → Bool
  | sayWord | gotoWord | attackWord | digWord | placeWord | equipWord | dropWord | waitWord => true
  | _ => false

end Keyword

inductive Symbol
  | assign | equal | notEqual | less | greater | lessEqual | greaterEqual
  | plus | minus | times | divide
  | openParen | closeParen | openBrace | closeBrace
deriving DecidableEq, Repr

namespace Symbol

/-- The two-character symbols, then those of one character. -/
def pairs : List Symbol := [equal, notEqual, lessEqual, greaterEqual]

def singles : List Symbol :=
  [assign, less, greater, plus, minus, times, divide, openParen, closeParen, openBrace, closeBrace]

def spelling : Symbol → String
  | assign => "="
  | equal => "=="
  | notEqual => "!="
  | less => "<"
  | greater => ">"
  | lessEqual => "<="
  | greaterEqual => ">="
  | plus => "+"
  | minus => "-"
  | times => "*"
  | divide => "/"
  | openParen => "("
  | closeParen => ")"
  | openBrace => "\x7b"
  | closeBrace => "\x7d"

def label : Symbol → String
  | assign => "ASSIGN"
  | equal => "EQUALS"
  | notEqual => "NOT_EQUALS"
  | less => "LESS"
  | greater => "GREATER"
  | lessEqual => "LESS_EQUAL"
  | greaterEqual => "GREATER_EQUAL"
  | plus => "PLUS"
  | minus => "MINUS"
  | times => "MULTIPLY"
  | divide => "DIVIDE"
  | openParen => "LPAREN"
  | closeParen => "RPAREN"
  | openBrace => "LBRACE"
  | closeBrace => "RBRACE"

def pair? (c d : Char) : Option Symbol := pairs.find? fun s => s.spelling.toList = [c, d]

def single? (c : Char) : Option Symbol := singles.find? fun s => s.spelling.toList = [c]

end Symbol

inductive TokenKind
  | identifier
  | number
  | string
  | keyword (k : Keyword)
  | symbol (s : Symbol)
  | newline
  | endOfInput
  | invalid
deriving DecidableEq, Repr

namespace TokenKind

def label : TokenKind → String
  | identifier => "IDENTIFIER"
  | number => "NUMBER"
  | string => "STRING"
  | keyword k => k.spelling
  | symbol s => s.label
  | newline => "NEWLINE"
  | endOfInput => "EOF"
  | invalid => "INVALID"

def all : List TokenKind :=
  [identifier, number, string] ++ Keyword.all.map keyword
    ++ (Symbol.pairs ++ Symbol.singles).map symbol ++ [newline, endOfInput, invalid]

def ofLabel? (name : String) : Option TokenKind := all.find? fun k => k.label = name

end TokenKind

/-- A token: its kind, its text (strings without their quotes, keywords in canonical spelling) and
the place of its first character. -/
structure Token where
  kind : TokenKind
  text : String
  loc : Location
deriving DecidableEq, Repr

namespace Token

def describe (t : Token) : String :=
  match t.kind with
  | .endOfInput => "end of input"
  | .newline => "newline"
  | .invalid => "invalid token '" ++ t.text ++ "'"
  | .string => "string \"" ++ t.text ++ "\""
  | _ => "'" ++ t.text ++ "'"

def listing (t : Token) : String :=
  toString t.loc.line ++ ":" ++ toString t.loc.column ++ " " ++ t.kind.label ++ " "
    ++ Text.quoted t.text

end Token

end AgentScript

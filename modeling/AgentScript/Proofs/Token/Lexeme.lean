import AgentScript.Token.Lexer

/-! Lexemes: how a token of each kind is written, what may stand after a lexeme, and which lists of
pieces cut a text properly. -/
namespace AgentScript

open Text

def IsWord : List Char → Prop
  | [] => False
  | c :: cs => isWordStart c ∧ ∀ d ∈ cs, isWordChar d

def IsDigits (cs : List Char) : Prop := cs ≠ [] ∧ ∀ c ∈ cs, isDigit c

def IsNumber (cs : List Char) : Prop :=
  IsDigits cs ∨ ∃ whole fraction, IsDigits whole ∧ IsDigits fraction ∧
    cs = whole ++ '.' :: fraction

/-- Characters of one line without a quotation mark. -/
def IsQuotable (cs : List Char) : Prop := ∀ c ∈ cs, c ≠ quoteMark ∧ c ≠ '\n'

/-- A character that is not skipped, and that begins no token of another kind. -/
def IsStray (c : Char) : Prop :=
  ¬ isGap c ∧ c ≠ '\n' ∧ c ≠ '#' ∧ ¬ isWordStart c ∧ ¬ isDigit c ∧ c ≠ quoteMark ∧
    ∀ s : Symbol, s.spelling.toList ≠ [c]

namespace TokenKind

/-- `kind.Writes text cs`: a token of this kind and text is written `cs` in a source. -/
def Writes : TokenKind → String → List Char → Prop
  | identifier, text, cs =>
    IsWord cs ∧ (∀ k : Keyword, cs.map Char.toUpper ≠ k.spelling.toList) ∧ text.toList = cs
  | keyword k, text, cs => cs.map Char.toUpper = k.spelling.toList ∧ text = k.spelling
  | number, text, cs => IsNumber cs ∧ text.toList = cs
  | string, text, cs => cs = quoteMark :: text.toList ++ [quoteMark] ∧ IsQuotable text.toList
  | symbol s, text, cs => cs = s.spelling.toList ∧ text = s.spelling
  | newline, text, cs => cs = ['\n'] ∧ text.toList = cs
  | invalid, text, cs =>
    ((∃ c, cs = [c] ∧ IsStray c) ∨ ∃ body, cs = quoteMark :: body ∧ IsQuotable body) ∧
      text.toList = cs
  | endOfInput, _, _ => False

/-- What stands after a lexeme: a word ends before a character that is none of a word, a number
before one that is no digit, and without a fraction also before no point with a digit. No symbol of
two characters is cut in two, and an unclosed string takes all of its line. -/
def Ends : TokenKind → List Char → List Char → Prop
  | identifier, _, rest => ∀ c ∈ rest.head?, ¬ isWordChar c
  | keyword _, _, rest => ∀ c ∈ rest.head?, ¬ isWordChar c
  | number, cs, rest =>
    (∀ c ∈ rest.head?, ¬ isDigit c) ∧
      ('.' ∉ cs → ∀ d r, rest = '.' :: d :: r → ¬ isDigit d)
  | symbol _, cs, rest =>
    ∀ c d, cs = [c] → d ∈ rest.head? → ∀ s : Symbol, s.spelling.toList ≠ [c, d]
  | invalid, cs, rest =>
    (quoteMark ∈ cs → ∀ c ∈ rest.head?, c = '\n') ∧
      ∀ c d, cs = [c] → d ∈ rest.head? → ∀ s : Symbol, s.spelling.toList ≠ [c, d]
  | _, _, _ => True

end TokenKind

/-- No lexeme of any kind at the head of the text is longer. -/
def IsLongest (cs rest : List Char) : Prop :=
  ∀ (kind : TokenKind) (text : String) (other : List Char),
    kind.Writes text other → other <+: cs ++ rest → other.length ≤ cs.length

namespace Piece

/-- Whether a piece is cut as it should be from a text that goes on with `rest`. A comment ends
before a newline or at the end of the text. -/
def Proper (rest : List Char) : Piece → Prop
  | gap c => c = ' ' ∨ c = '\t' ∨ c = '\r'
  | comment cs => (∃ body, cs = '#' :: body ∧ '\n' ∉ body) ∧ ∀ c ∈ rest.head?, c = '\n'
  | lexeme kind cs => kind.Writes (textOf kind cs) cs ∧ IsLongest cs rest ∧ kind.Ends cs rest

end Piece

def textOfPieces (ps : List Piece) : List Char := ps.flatMap Piece.chars

/-- Every piece is cut as it should be from the text of the pieces from there on. -/
def ProperCut : List Piece → Prop
  | [] => True
  | p :: ps => p.Proper (textOfPieces ps) ∧ ProperCut ps

/-- The place after a text: one line more than it has newlines, and one column more than there are
characters after the last of them. -/
def Location.past (before : List Char) : Location :=
  ⟨1 + before.count '\n', 1 + (before.reverse.takeWhile (· ≠ '\n')).length⟩

/-- The tokens of some pieces that stand after a text, and the end of input after them. -/
def tokensPast (before : List Char) : List Piece → List Token
  | [] => [⟨.endOfInput, "", .past before⟩]
  | p :: ps => (p.token? (.past before)).toList ++ tokensPast (before ++ p.chars) ps

end AgentScript

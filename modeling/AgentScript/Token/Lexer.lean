import AgentScript.Token

/-! The lexer. A text is cut into consecutive pieces, which are then placed and turned into tokens.
It is total: what it cannot classify becomes an invalid token. -/
namespace AgentScript

open Text

def isWordStart (c : Char) : Bool := isLetter c || c = '_'

def isWordChar (c : Char) : Bool := isWordStart c || isDigit c

/-- Blanks between tokens. The newline is a token of its own. -/
def isGap (c : Char) : Bool := c = ' ' || c = '\t' || c = '\r'

/-- A consecutive part of a source: skipped, or the lexeme of one token. -/
inductive Piece
  | gap (c : Char)
  | comment (chars : List Char)
  | lexeme (kind : TokenKind) (chars : List Char)
deriving DecidableEq, Repr

namespace Piece

def chars : Piece → List Char
  | gap c => [c]
  | comment cs => cs
  | lexeme _ cs => cs

def textOf (kind : TokenKind) (cs : List Char) : String :=
  match kind with
  | .keyword k => k.spelling
  | .string => String.ofList (cs.drop 1).dropLast
  | _ => String.ofList cs

def token? (loc : Location) : Piece → Option Token
  | lexeme kind cs => some ⟨kind, textOf kind cs, loc⟩
  | _ => none

def word (c : Char) (cs : List Char) : Piece × List Char :=
  let w := c :: cs.takeWhile isWordChar
  let kind := match Keyword.ofWord? w with
    | some k => .keyword k
    | none => .identifier
  (lexeme kind w, cs.dropWhile isWordChar)

/-- Cuts a number. A point belongs to it only when a digit follows. -/
def number (c : Char) (cs : List Char) : Piece × List Char :=
  let whole := c :: cs.takeWhile isDigit
  match cs.dropWhile isDigit with
  | '.' :: d :: r =>
    if isDigit d then
      (lexeme .number (whole ++ '.' :: d :: r.takeWhile isDigit), r.dropWhile isDigit)
    else (lexeme .number whole, '.' :: d :: r)
  | r => (lexeme .number whole, r)

/-- Strings end on the line where they begin. -/
def inString (c : Char) : Bool := c ≠ quoteMark && c ≠ '\n'

/-- Cuts a string after its opening mark, or all of the line when it is not closed. -/
def string (cs : List Char) : Piece × List Char :=
  let body := quoteMark :: cs.takeWhile inString
  match cs.dropWhile inString with
  | d :: r =>
    if d = quoteMark then (lexeme .string (body ++ [d]), r) else (lexeme .invalid body, d :: r)
  | [] => (lexeme .invalid body, [])

def symbol (c : Char) (cs : List Char) : Piece × List Char :=
  match cs with
  | [] => (one, [])
  | d :: r =>
    match Symbol.pair? c d with
    | some s => (lexeme (.symbol s) [c, d], r)
    | none => (one, d :: r)
where
  one : Piece :=
    match Symbol.single? c with
    | some s => lexeme (.symbol s) [c]
    | none => lexeme .invalid [c]

/-- Cuts the first piece of a text that begins with `c`. -/
def first (c : Char) (cs : List Char) : Piece × List Char :=
  if isGap c then (gap c, cs)
  else if c = '\n' then (lexeme .newline [c], cs)
  else if c = '#' then (comment (c :: cs.takeWhile (· ≠ '\n')), cs.dropWhile (· ≠ '\n'))
  else if isWordStart c then word c cs
  else if isDigit c then number c cs
  else if c = quoteMark then string cs
  else symbol c cs

theorem first_append (c : Char) (cs : List Char) :
    (first c cs).1.chars ++ (first c cs).2 = c :: cs := by
  unfold first
  split
  · rfl
  split
  · rfl
  split
  · simp [chars]
  split
  · simp [word, chars]
  split
  · simp only [number]
    have h := List.takeWhile_append_dropWhile (p := isDigit) (l := cs)
    split
    · next d r hr =>
      rw [hr] at h
      split <;> simpa [chars] using h
    · simp [chars]
  split
  · next hq =>
    simp only [string]
    have h := List.takeWhile_append_dropWhile (p := inString) (l := cs)
    split
    · next d r hr =>
      rw [hr] at h
      split <;> simpa [chars, hq] using h
    · next hr =>
      rw [hr] at h
      simpa [chars, hq] using h
  · unfold symbol symbol.one
    cases cs with
    | nil => simp only; split <;> rfl
    | cons d r =>
      simp only
      split
      · rfl
      · split <;> rfl

theorem first_chars_ne_nil (c : Char) (cs : List Char) : (first c cs).1.chars ≠ [] := by
  unfold first
  split
  · simp [chars]
  split
  · simp [chars]
  split
  · simp [chars]
  split
  · simp [word, chars]
  split
  · simp only [number]
    split
    · split <;> simp [chars]
    · simp [chars]
  split
  · simp only [string]
    split
    · split <;> simp [chars]
    · simp [chars]
  · unfold symbol symbol.one
    cases cs with
    | nil => simp only; split <;> simp [chars]
    | cons d r =>
      simp only
      split
      · simp [chars]
      · split <;> simp [chars]

theorem first_shorter (c : Char) (cs : List Char) :
    (first c cs).2.length < (c :: cs).length := by
  have h := congrArg List.length (first_append c cs)
  have h' := List.length_pos_iff.mpr (first_chars_ne_nil c cs)
  rw [List.length_append] at h
  omega

end Piece

def pieces : List Char → List Piece
  | [] => []
  | c :: cs => (Piece.first c cs).1 :: pieces (Piece.first c cs).2
termination_by cs => cs.length
decreasing_by exact Piece.first_shorter c cs

/-- Places pieces one after the other and keeps the tokens, closed by an end of input. -/
def tokensOf (loc : Location) : List Piece → List Token
  | [] => [⟨.endOfInput, "", loc⟩]
  | p :: ps => (p.token? loc).toList ++ tokensOf (loc.afterAll p.chars) ps

def tokenize (source : String) : List Token := tokensOf .start (pieces source.toList)

end AgentScript

import AgentScript.Text.Classes
import AgentScript.Text.Quoted

/-! Places in a settings file, where columns matter. Columns count from zero. -/
namespace AgentScript.Yaml

def isBreak (c : Char) : Bool :=
  c = '\n' || c = '\x85' || c = '\u2028' || c = '\u2029'

def isBlank (c : Char) : Bool := c = ' ' || c = '\t' || isBreak c

def isAllowed (c : Char) : Bool :=
  let n := c.toNat
  n = 0x09 || n = 0x0A || n = 0x0D || (0x20 ≤ n && n ≤ 0x7E) || n = 0x85
    || (0xA0 ≤ n && n ≤ 0xFFFD) || 0x10000 ≤ n

/-- What remains of a file, and where it begins. -/
structure Cursor where
  rest : List Char
  line : Nat := 0
  column : Nat := 0
  /-- Whether a block may begin here: only blanks and marks of list items stand before it. -/
  fresh : Bool := true

namespace Cursor

def step (c : Cursor) : Cursor :=
  match c.rest with
  | [] => c
  | ch :: r =>
    if isBreak ch then ⟨r, c.line + 1, 0, true⟩
    else { c with rest := r, column := c.column + 1 }

def drop (c : Cursor) : Nat → Cursor
  | 0 => c
  | n + 1 => c.step.drop n

/-- The same place after something that no block can follow on its line. -/
def stale (c : Cursor) : Cursor := { c with fresh := false }

/-- Drops blanks and line breaks, and comments if it is in one or meets one. Tabs are no blanks
here. -/
def skipFrom (line column : Nat) (fresh comment : Bool) : List Char → Cursor
  | [] => ⟨[], line, column, fresh⟩
  | ch :: r =>
    if isBreak ch then skipFrom (line + 1) 0 true false r
    else if comment || ch = ' ' || ch = '#' then
      skipFrom line (column + 1) fresh (comment || ch = '#') r
    else ⟨ch :: r, line, column, fresh⟩

def skip (c : Cursor) : Cursor := skipFrom c.line c.column c.fresh false c.rest

def skipSpaces (c : Cursor) : Cursor := c.drop (c.rest.takeWhile (· = ' ')).length

def sees (c : Cursor) (ch : Char) : Bool := c.rest.head? = some ch

/-- Whether the text after one character begins with a blank, or ends. -/
def blankAfter (cs : List Char) : Bool := (cs.drop 1).head?.all isBlank

/-- Whether a character stands here by itself. -/
def seesMark (c : Cursor) (ch : Char) : Bool := c.sees ch && blankAfter c.rest

/-- Whether a line begins here with three characters that stand by themselves. -/
def seesTriple (c : Cursor) (ch : Char) : Bool :=
  c.column = 0 && c.rest.take 3 = [ch, ch, ch] && (c.rest.drop 3).head?.all isBlank

def atMarker (c : Cursor) : Bool := c.seesTriple '-' || c.seesTriple '.'

def atEnd (c : Cursor) : Bool := c.rest.isEmpty || c.atMarker

end Cursor

/-- Drops blanks and line breaks and keeps the breaks. -/
def blankLines (tabs : Bool) (breaks : List Char) (line column : Nat) (fresh : Bool) :
    List Char → List Char × Cursor
  | [] => (breaks.reverse, ⟨[], line, column, fresh⟩)
  | ch :: r =>
    if isBreak ch then
      blankLines tabs ((if ch = '\x85' then '\n' else ch) :: breaks) (line + 1) 0 true r
    else if ch = ' ' || (tabs && ch = '\t') then blankLines tabs breaks line (column + 1) fresh r
    else (breaks.reverse, ⟨ch :: r, line, column, fresh⟩)

/-- What line breaks inside a scalar mean: a single one is a blank, and of several the first does
not count. -/
def folded : List Char → List Char
  | [] => []
  | first :: more =>
    if first ≠ '\n' then first :: more else if more.isEmpty then [' '] else more

/-- The gap between two parts of a scalar: the text that it stands for, and the place after it. -/
def gap (tabs : Bool) (c : Cursor) : List Char × Cursor :=
  let blanks := c.rest.takeWhile fun ch => ch = ' ' || (tabs && ch = '\t')
  let after := c.drop blanks.length
  if after.rest.head?.any isBreak then
    let (breaks, next) := blankLines tabs [] after.line after.column after.fresh after.rest
    (folded breaks, next)
  else (blanks, after)

/-- Whether a colon before this text ends a key. -/
def endsKey (flow : Bool) (cs : List Char) : Bool :=
  cs.head?.all fun ch => isBlank ch || (flow && [',', '[', ']', '\x7b', '\x7d'].contains ch)

def flowMarks : List Char := [',', '?', '[', ']', '\x7b', '\x7d']

def plainRun (flow : Bool) : List Char → List Char
  | [] => []
  | ch :: r =>
    if isBlank ch || (ch = ':' && endsKey flow r) || (flow && flowMarks.contains ch) then []
    else ch :: plainRun flow r

def indicators : List Char :=
  ['-', '?', ':', ',', '[', ']', '\x7b', '\x7d', '#', '&', '*', '!', '|', '>', Text.apostrophe,
    Text.quoteMark, '%', '@', '\x60']

/-- A dash begins a plain scalar if no blank follows it, and outside of brackets so do a question
mark and a colon. -/
def startsPlain (flow : Bool) (cs : List Char) : Bool :=
  match cs with
  | [] => false
  | ch :: _ =>
    !isBlank ch && (!indicators.contains ch
      || (!Cursor.blankAfter cs && (ch = '-' || (!flow && (ch = '?' || ch = ':')))))

/-- A plain scalar: its parts and the gaps between them, as long as its lines reach the least
column. Inside brackets columns do not matter. The fuel is the length of the text. -/
def plainScalar (flow : Bool) (least : Nat) (between : List Char) (fuel : Nat) (c : Cursor)
    (out : List Char) : List Char × Cursor :=
  match fuel with
  | 0 => (out, c)
  | fuel + 1 =>
    let part := if c.sees '#' then [] else plainRun flow c.rest
    if part.isEmpty then (out, c)
    else
      let out := out ++ between ++ part
      let (between, next) := gap false (c.drop part.length).stale
      if next.atMarker || between.isEmpty || next.sees '#' || (!flow && next.column < least) then
        (out, next)
      else plainScalar flow least between fuel next out

def escapes : List (Char × Char) :=
  [('0', '\x00'), ('a', '\x07'), ('b', '\x08'), ('t', '\t'), ('\t', '\t'), ('n', '\n'),
    ('v', '\x0b'), ('f', '\x0c'), ('r', '\r'), ('e', '\x1b'), (' ', ' '),
    (Text.quoteMark, Text.quoteMark), (Text.backslash, Text.backslash), ('/', '/'), ('N', '\x85'),
    ('_', '\xa0'), ('L', '\u2028'), ('P', '\u2029')]

/-- The number of digits of the escapes that give a code point. -/
def codeEscapes : List (Char × Nat) := [('x', 2), ('u', 4), ('U', 8)]

def codePoint? (digits : List Char) : Option Char := do
  let n ← digits.foldlM (fun n d => (Text.hexDigit? d).map (16 * n + ·)) 0
  if h : n.isValidChar then return Char.ofNatAux n h else none

/-- What an escape stands for, after the backslash, and the place after it. A line break with the
blanks after it stands for the breaks that follow. -/
def escapeAt (c : Cursor) : Option (List Char × Cursor) :=
  match c.rest with
  | [] => none
  | ch :: r =>
    if isBreak ch then
      let (breaks, next) := blankLines true [] c.step.line c.step.column c.step.fresh c.step.rest
      if next.atMarker then none else some (breaks, next)
    else
      match escapes.lookup ch, codeEscapes.lookup ch with
      | some d, _ => some ([d], c.step)
      | none, some width =>
        if (r.take width).length < width then none
        else (codePoint? (r.take width)).map fun d => ([d], c.drop (width + 1))
      | none, none => none

/-- The characters up to the closing mark, and the place after it. In single quotes a mark is
written twice, and in double quotes there are escapes. The fuel is the length of the text. -/
def quotedScalar (double : Bool) (fuel : Nat) (c : Cursor) (out : List Char) :
    Option (List Char × Cursor) :=
  match fuel, c.rest with
  | 0, _ => none
  | _, [] => none
  | fuel + 1, ch :: r =>
    if ch = (if double then Text.quoteMark else Text.apostrophe) then
      if !double && r.head? = some ch then quotedScalar double fuel (c.drop 2) (ch :: out)
      else some (out.reverse, c.step.stale)
    else if double && ch = Text.backslash then do
      let (text, next) ← escapeAt c.step
      quotedScalar double fuel next (text.reverse ++ out)
    else if isBlank ch then
      let (text, next) := gap true c
      if next.rest.isEmpty || next.atMarker then none
      else quotedScalar double fuel next (text.reverse ++ out)
    else quotedScalar double fuel c.step (ch :: out)

end AgentScript.Yaml

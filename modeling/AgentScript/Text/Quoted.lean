import AgentScript.Text.Printable

/-! Quoted text with escapes, as token listings and messages show it. -/
namespace AgentScript.Text

def apostrophe : Char := '\x27'
def quoteMark : Char := '\x22'
def backslash : Char := '\x5c'

/-- The digits of `n` in base sixteen, padded with zeros to the given width. -/
def hex (width n : Nat) : List Char :=
  let digits := Nat.toDigits 16 n
  List.replicate (width - digits.length) '0' ++ digits

def escape (mark c : Char) : List Char :=
  if c = mark || c = backslash then [backslash, c]
  else if c = '\n' then [backslash, 'n']
  else if c = '\r' then [backslash, 'r']
  else if c = '\t' then [backslash, 't']
  else if isPrintable c then [c]
  else if c.toNat < 0x100 then backslash :: 'x' :: hex 2 c.toNat
  else if c.toNat < 0x10000 then backslash :: 'u' :: hex 4 c.toNat
  else backslash :: 'U' :: hex 8 c.toNat

/-- Apostrophes, unless the text holds one and no quotation mark. -/
def markFor (cs : List Char) : Char :=
  if cs.contains apostrophe && !cs.contains quoteMark then quoteMark else apostrophe

def quotedChars (cs : List Char) : List Char :=
  let mark := markFor cs
  mark :: cs.flatMap (escape mark) ++ [mark]

def quoted (s : String) : String := String.ofList (quotedChars s.toList)

end AgentScript.Text

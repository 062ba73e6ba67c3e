import AgentScript.Error
import AgentScript.Number.Read
import AgentScript.Token.Lexer

/-! The parser: recursive descent over the tokens before the end of input. Every step hands on a
shorter rest, and the first token that cannot go on decides the error. -/
namespace AgentScript.Parser

/-- A rest of a token list that is shorter than the list. -/
abbrev Rest (ts : List Token) : Type := { r : List Token // r.length < ts.length }

/-- A rest of a token list that is not longer than the list. -/
abbrev Rest' (ts : List Token) : Type := { r : List Token // r.length ≤ ts.length }

/-- The result of a step that takes at least one token. -/
abbrev Step (α : Type) (ts : List Token) : Type := Except Trouble (α × Rest ts)

/-- Rejects the token at hand, which is the closing one when no other is left. -/
def reject (wanted : String) (stop : Token) (ts : List Token) : Trouble :=
  let found := ts.head?.getD stop
  .error (.locatedAt (.unexpected wanted found) found.loc)

def take (stop : Token) (kind : TokenKind) (wanted : String) (ts : List Token) : Step Token ts :=
  match ts with
  | [] => .error (reject wanted stop [])
  | t :: r => if t.kind = kind then .ok (t, ⟨r, by simp⟩) else .error (reject wanted stop (t :: r))

def numberOf (t : Token) : Except Trouble Float :=
  match Number.readFloat? t.text with
  | some x => .ok x
  | none => .error (.fault ⟨.value, "could not convert string to float: " ++ Text.quoted t.text⟩)

def binaryOf (t : Token) : Except Trouble BinaryOp :=
  let word := Text.lower t.text
  match BinaryOp.ofSpelling? word with
  | some op => .ok op
  | none => .error (.fault (.notAMember (Text.quoted word) "BinaryOperator"))

def unaryOf (t : Token) : Except Trouble UnaryOp :=
  let word := Text.lower t.text
  match UnaryOp.ofSpelling? word with
  | some op => .ok op
  | none => .error (.fault (.notAMember (Text.quoted word) "UnaryOperator"))

/-- The tier of a binary operator, counted from the tightest of the six. -/
def tierOf : TokenKind → Option Nat
  | .symbol .times | .symbol .divide => some 0
  | .symbol .plus | .symbol .minus => some 1
  | .symbol .less | .symbol .greater | .symbol .lessEqual | .symbol .greaterEqual => some 2
  | .symbol .equal | .symbol .notEqual => some 3
  | .keyword .andWord => some 4
  | .keyword .orWord => some 5
  | _ => none

def startsExpr : TokenKind → Bool
  | .number | .string | .identifier => true
  | .keyword .trueWord | .keyword .falseWord | .keyword .notWord => true
  | .symbol .openParen | .symbol .minus => true
  | _ => false

mutual

/-- An operand with the unary operators before it. -/
def unary (stop : Token) (ts : List Token) : Step Expr ts :=
  match ts with
  | [] => .error (reject "expression" stop [])
  | t :: r =>
    match t.kind with
    | .keyword .notWord | .symbol .minus => do
      let (operand, ⟨r₁, h₁⟩) ← unary stop r
      let op ← unaryOf t
      return (.unary t.loc op operand, ⟨r₁, by simp; omega⟩)
    | .number => do
      let x ← numberOf t
      return (.number t.loc x, ⟨r, by simp⟩)
    | .string => .ok (.string t.loc t.text, ⟨r, by simp⟩)
    | .keyword .trueWord => .ok (.boolean t.loc true, ⟨r, by simp⟩)
    | .keyword .falseWord => .ok (.boolean t.loc false, ⟨r, by simp⟩)
    | .identifier => .ok (.reference t.loc (.word t.text), ⟨r, by simp⟩)
    | .symbol .openParen => do
      let (e, ⟨r₁, h₁⟩) ← tier stop 6 r
      let (_, ⟨r₂, h₂⟩) ← take stop (.symbol .closeParen) "')' after expression" r₁
      return (e, ⟨r₂, by simp; omega⟩)
    | _ => .error (reject "expression" stop (t :: r))
termination_by 8 * ts.length

/-- Operands joined by the operators of the `k` tightest tiers. -/
def tier (stop : Token) (k : Nat) (ts : List Token) : Step Expr ts :=
  match k with
  | 0 => unary stop ts
  | k + 1 => do
    let (left, ⟨r₁, h₁⟩) ← tier stop k ts
    let (e, ⟨r₂, h₂⟩) ← tail stop k left r₁
    return (e, ⟨r₂, by omega⟩)
termination_by 8 * ts.length + k + 1

/-- What the operators of tier `k` append to an operand, from left to right. -/
def tail (stop : Token) (k : Nat) (left : Expr) (ts : List Token) :
    Except Trouble (Expr × Rest' ts) :=
  match ts with
  | [] => .ok (left, ⟨[], by simp⟩)
  | t :: r =>
    if tierOf t.kind = some k then do
      let (right, ⟨r₁, h₁⟩) ← tier stop k r
      let op ← binaryOf t
      let (e, ⟨r₂, h₂⟩) ← tail stop k (.binary t.loc op left right) r₁
      return (e, ⟨r₂, by simp; omega⟩)
    else .ok (left, ⟨t :: r, by simp⟩)
termination_by 8 * ts.length + k

end

def expr (stop : Token) (ts : List Token) : Step Expr ts := tier stop 6 ts

def argument (stop : Token) (command what : String) (ts : List Token) : Step Expr ts :=
  if ts.head?.any (startsExpr ·.kind) then expr stop ts
  else .error (reject (what ++ " for " ++ command) stop ts)

def optionalArgument (stop : Token) (ts : List Token) :
    Except Trouble (Option Expr × Rest' ts) :=
  if ts.head?.any (startsExpr ·.kind) then do
    let (e, ⟨r, h⟩) ← expr stop ts
    return (some e, ⟨r, by omega⟩)
  else .ok (none, ⟨ts, by omega⟩)

def command (stop : Token) (loc : Location) (k : Keyword) (ts : List Token) :
    Except Trouble (Command × Rest' ts) :=
  match k with
  | .sayWord => do
    let (message, ⟨r, h⟩) ← argument stop "say" "message" ts
    return (.say loc message, ⟨r, by omega⟩)
  | .gotoWord => do
    let (x, ⟨r₁, h₁⟩) ← argument stop "goto" "x coordinate" ts
    let (y, ⟨r₂, h₂⟩) ← argument stop "goto" "y coordinate" r₁
    let (z, ⟨r₃, h₃⟩) ← argument stop "goto" "z coordinate" r₂
    return (.goto loc x y z, ⟨r₃, by omega⟩)
  | .attackWord => do
    let (target, ⟨r, h⟩) ← argument stop "attack" "target" ts
    return (.attack loc target, ⟨r, by omega⟩)
  | .digWord => do
    let (block, r) ← optionalArgument stop ts
    return (.dig loc block, r)
  | .placeWord => do
    let (item, ⟨r₁, h₁⟩) ← argument stop "place" "item" ts
    if r₁.head?.any (startsExpr ·.kind) then
      let (x, ⟨r₂, h₂⟩) ← argument stop "place" "x coordinate" r₁
      let (y, ⟨r₃, h₃⟩) ← argument stop "place" "y coordinate" r₂
      let (z, ⟨r₄, h₄⟩) ← argument stop "place" "z coordinate" r₃
      return (.place loc item (some x) (some y) (some z), ⟨r₄, by omega⟩)
    else return (.place loc item none none none, ⟨r₁, by omega⟩)
  | .equipWord => do
    let (item, ⟨r, h⟩) ← argument stop "equip" "item" ts
    return (.equip loc item, ⟨r, by omega⟩)
  | .dropWord => do
    let (item, ⟨r₁, h₁⟩) ← argument stop "drop" "item" ts
    let (count, ⟨r₂, h₂⟩) ← optionalArgument stop r₁
    return (.drop loc item count, ⟨r₂, by omega⟩)
  | .waitWord => do
    let (seconds, ⟨r, h⟩) ← argument stop "wait" "seconds" ts
    return (.wait loc seconds, ⟨r, by omega⟩)
  | _ => .error (reject "command" stop ts)

def binding (stop : Token) (keyword : String) (ts : List Token) : Step (String × Expr) ts := do
  let (name, ⟨r₁, h₁⟩) ← take stop .identifier ("variable name after " ++ keyword) ts
  let (_, ⟨r₂, h₂⟩) ←
    take stop (.symbol .assign) ("'=' after variable name '" ++ name.text ++ "'") r₁
  let (e, ⟨r₃, h₃⟩) ← expr stop r₂
  return ((name.text, e), ⟨r₃, by omega⟩)

def isNewline (t : Token) : Bool := t.kind = .newline

/-- The rest after an `else`, which may stand on a later line than the brace before it. -/
def afterElse? (ts : List Token) : Option (Rest ts) :=
  match h : ts.dropWhile isNewline with
  | [] => none
  | t :: r =>
    if t.kind = .keyword .elseWord then
      some ⟨r, by
        have := (List.dropWhile_sublist isNewline (l := ts)).length_le
        rw [h] at this
        simp at this
        omega⟩
    else none

/-- A statement ends at a newline, at the end, and inside a block before the closing brace. -/
def endsStatement (inBlock : Bool) (stop : Token) (ts : List Token) : Except Trouble Unit :=
  match ts with
  | [] => .ok ()
  | t :: _ =>
    if t.kind = .newline || (inBlock && t.kind = .symbol .closeBrace) then .ok ()
    else .error (reject "newline after statement" stop ts)

mutual

def statement (stop : Token) (ts : List Token) : Step Stmt ts :=
  match ts with
  | [] => .error (reject "expression" stop [])
  | t :: r =>
    match t.kind with
    | .keyword .varWord => do
      let ((name, e), ⟨r₁, h₁⟩) ← binding stop "var" r
      return (.declare t.loc (.word name) e, ⟨r₁, by simp; omega⟩)
    | .keyword .setWord => do
      let ((name, e), ⟨r₁, h₁⟩) ← binding stop "set" r
      return (.assign t.loc (.word name) e, ⟨r₁, by simp; omega⟩)
    | .keyword .ifWord => do
      let (condition, ⟨r₁, h₁⟩) ← expr stop r
      let (_, ⟨r₂, h₂⟩) ← take stop (.symbol .openBrace) "'\x7b' after if condition" r₁
      let (yes, ⟨r₃, h₃⟩) ← items stop "if condition" r₂
      match afterElse? r₃ with
      | none => return (.branch t.loc condition (.statements yes) none, ⟨r₃, by simp; omega⟩)
      | some ⟨r₄, h₄⟩ =>
        let (_, ⟨r₅, h₅⟩) ← take stop (.symbol .openBrace) "'\x7b' after else" r₄
        let (no, ⟨r₆, h₆⟩) ← items stop "else" r₅
        return (.branch t.loc condition (.statements yes) (some (.statements no)),
          ⟨r₆, by simp; omega⟩)
    | .keyword .repeatWord => do
      let (count, ⟨r₁, h₁⟩) ← expr stop r
      let (_, ⟨r₂, h₂⟩) ← take stop (.symbol .openBrace) "'\x7b' after repeat count" r₁
      let (body, ⟨r₃, h₃⟩) ← items stop "repeat count" r₂
      return (.loop t.loc count (.statements body), ⟨r₃, by simp; omega⟩)
    | .keyword k =>
      if k.isCommand then do
        let (c, ⟨r₁, h₁⟩) ← command stop t.loc k r
        return (.command t.loc c, ⟨r₁, by simp; omega⟩)
      else do
        let (e, r₁) ← expr stop (t :: r)
        return (.evaluate t.loc e, r₁)
    | _ => do
      let (e, r₁) ← expr stop (t :: r)
      return (.evaluate t.loc e, r₁)
termination_by 2 * ts.length

/-- The statements of a block after its opening brace, up to and with the closing one. -/
def items (stop : Token) (owner : String) (ts : List Token) : Step (List Stmt) ts :=
  match ts with
  | [] => .error (reject ("'\x7d' to close " ++ owner ++ " block") stop [])
  | t :: r =>
    if t.kind = .newline then do
      let (rest, ⟨r₁, h₁⟩) ← items stop owner r
      return (rest, ⟨r₁, by simp; omega⟩)
    else if t.kind = .symbol .closeBrace then .ok ([], ⟨r, by simp⟩)
    else do
      let (s, ⟨r₁, h₁⟩) ← statement stop (t :: r)
      have : r₁.length < r.length + 1 := h₁
      endsStatement true stop r₁
      let (rest, ⟨r₂, h₂⟩) ← items stop owner r₁
      return (s :: rest, ⟨r₂, by omega⟩)
termination_by 2 * ts.length + 1

end

def statements (stop : Token) (ts : List Token) : Except Trouble (List Stmt) :=
  match ts with
  | [] => .ok []
  | t :: r =>
    if t.kind = .newline then statements stop r
    else do
      let (s, ⟨r₁, _h₁⟩) ← statement stop (t :: r)
      endsStatement false stop r₁
      let rest ← statements stop r₁
      return s :: rest
termination_by ts.length
decreasing_by all_goals simp_all

/-- The tokens before the first end of input, and that end. A list without one is closed at the
place of its last token. -/
def split (ts : List Token) : List Token × Token :=
  let body := ts.takeWhile (·.kind ≠ .endOfInput)
  match ts.dropWhile (·.kind ≠ .endOfInput) with
  | stop :: _ => (body, stop)
  | [] => (body, ⟨.endOfInput, "", (ts.getLast?.map (·.loc)).getD .start⟩)

end Parser

open AgentScript.Parser

def Program.ofTokens (ts : List Token) : Except Trouble Program :=
  let (body, stop) := split ts
  (statements stop body).map Program.ofStatements

def Program.ofSource (source : String) : Except Trouble Program := ofTokens (tokenize source)

/-- The expression at the head of a text, and the token after it. -/
def Expr.ofSource (source : String) : Except Trouble (Expr × Token) := do
  let (body, stop) := split (tokenize source)
  let (e, r) ← Parser.expr stop body
  return (e, r.val.head?.getD stop)

end AgentScript

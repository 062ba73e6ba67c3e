import AgentScript.Syntax.Parser

/-! The grammar of scripts. A derivation is a tree over the tokens that it covers, and every
derivation writes one syntax tree. -/
namespace AgentScript.Grammar

abbrev Terminal (kind : TokenKind) : Type := { t : Token // t.kind = kind }

/-- The binary operators, level by level from the tightest one. -/
def binaryOp? (level : Nat) (kind : TokenKind) : Option BinaryOp :=
  match level, kind with
  | 0, .symbol .times => some .multiply
  | 0, .symbol .divide => some .divide
  | 1, .symbol .plus => some .add
  | 1, .symbol .minus => some .subtract
  | 2, .symbol .less => some .less
  | 2, .symbol .greater => some .greater
  | 2, .symbol .lessEqual => some .lessEqual
  | 2, .symbol .greaterEqual => some .greaterEqual
  | 3, .symbol .equal => some .equal
  | 3, .symbol .notEqual => some .notEqual
  | 4, .keyword .andWord => some .and
  | 5, .keyword .orWord => some .or
  | _, _ => none

def unaryOp? : TokenKind → Option UnaryOp
  | .keyword .notWord => some .not
  | .symbol .minus => some .negate
  | _ => none

def primary? (t : Token) : Option Expr :=
  match t.kind with
  | .number => some (.number t.loc ((Number.readFloat? t.text).getD 0))
  | .string => some (.string t.loc t.text)
  | .keyword .trueWord => some (.boolean t.loc true)
  | .keyword .falseWord => some (.boolean t.loc false)
  | .identifier => some (.reference t.loc (.word t.text))
  | _ => none

mutual

/-- Operands joined by the binary operators of the `k` tightest levels. -/
inductive Phrase : Nat → Type
  | primary (t : Token) (e : Expr) (h : primary? t = some e) : Phrase 0
  | unary (t : Token) (op : UnaryOp) (h : unaryOp? t.kind = some op) (operand : Phrase 0) :
    Phrase 0
  | group (opening : Terminal (.symbol .openParen)) (inner : Phrase 6)
    (closing : Terminal (.symbol .closeParen)) : Phrase 0
  | chain {k : Nat} (first : Phrase k) (rest : Tail k) : Phrase (k + 1)

/-- Operators of level `k`, each with the operand on its right. -/
inductive Tail : Nat → Type
  | nil {k : Nat} : Tail k
  | cons {k : Nat} (t : Token) (op : BinaryOp) (h : binaryOp? k t.kind = some op)
    (right : Phrase k) (rest : Tail k) : Tail k

end

mutual

def Phrase.tokens {k : Nat} : Phrase k → List Token
  | .primary t _ _ => [t]
  | .unary t _ _ operand => t :: operand.tokens
  | .group opening inner closing => opening.val :: (inner.tokens ++ [closing.val])
  | .chain first rest => first.tokens ++ rest.tokens

def Tail.tokens {k : Nat} : Tail k → List Token
  | .nil => []
  | .cons t _ _ right rest => t :: (right.tokens ++ rest.tokens)

end

mutual

def Phrase.tree {k : Nat} : Phrase k → Expr
  | .primary _ e _ => e
  | .unary t op _ operand => .unary t.loc op operand.tree
  | .group _ inner _ => inner.tree
  | .chain first rest => rest.tree first.tree

/-- The operators join to the left: each takes all that stands before it. -/
def Tail.tree {k : Nat} (left : Expr) : Tail k → Expr
  | .nil => left
  | .cons t op _ right rest => rest.tree (.binary t.loc op left right.tree)

end

abbrev Expression : Type := Phrase 6

/-- An argument after the first one. A minus would make it go on with the argument before. -/
abbrev Later : Type := { e : Expression // ∀ t ∈ e.tokens.head?, t.kind ≠ .symbol .minus }

inductive Arguments
  | nil
  | cons (first : Expression) (later : List Later)

namespace Arguments

def tokens : Arguments → List Token
  | nil => []
  | cons first later => first.tokens ++ later.flatMap (·.val.tokens)

def trees : Arguments → List Expr
  | nil => []
  | cons first later => first.tree :: later.map (·.val.tree)

end Arguments

def command? (loc : Location) : Keyword → List Expr → Option Command
  | .sayWord, [message] => some (.say loc message)
  | .gotoWord, [x, y, z] => some (.goto loc x y z)
  | .attackWord, [target] => some (.attack loc target)
  | .digWord, [] => some (.dig loc none)
  | .digWord, [block] => some (.dig loc (some block))
  | .placeWord, [item] => some (.place loc item none none none)
  | .placeWord, [item, x, y, z] => some (.place loc item (some x) (some y) (some z))
  | .equipWord, [item] => some (.equip loc item)
  | .dropWord, [item] => some (.drop loc item none)
  | .dropWord, [item, count] => some (.drop loc item (some count))
  | .waitWord, [seconds] => some (.wait loc seconds)
  | _, _ => none

mutual

inductive Statement
  | declare (word : Terminal (.keyword .varWord)) (name : Terminal .identifier)
    (sign : Terminal (.symbol .assign)) (value : Expression)
  | assign (word : Terminal (.keyword .setWord)) (name : Terminal .identifier)
    (sign : Terminal (.symbol .assign)) (value : Expression)
  | branch (word : Terminal (.keyword .ifWord)) (condition : Expression)
    (opening : Terminal (.symbol .openBrace)) (yes : Items)
    (closing : Terminal (.symbol .closeBrace))
  | choice (word : Terminal (.keyword .ifWord)) (condition : Expression)
    (opening : Terminal (.symbol .openBrace)) (yes : Items)
    (closing : Terminal (.symbol .closeBrace)) (gap : List (Terminal .newline))
    (otherwise : Terminal (.keyword .elseWord)) (opening' : Terminal (.symbol .openBrace))
    (no : Items) (closing' : Terminal (.symbol .closeBrace))
  | loop (word : Terminal (.keyword .repeatWord)) (count : Expression)
    (opening : Terminal (.symbol .openBrace)) (body : Items)
    (closing : Terminal (.symbol .closeBrace))
  | command (word : Token) (k : Keyword) (arguments : Arguments) (c : Command)
    (hk : word.kind = .keyword k) (hc : command? word.loc k arguments.trees = some c)
  | evaluate (e : Expression)

/-- The statements of a block or of a program. A newline stands between two of them, and the last
one may do without. -/
inductive Items
  | nil
  | newline (t : Terminal .newline) (rest : Items)
  | last (s : Statement)
  | line (s : Statement) (t : Terminal .newline) (rest : Items)

end

mutual

def Statement.tokens : Statement → List Token
  | .declare word name sign value => word.val :: name.val :: sign.val :: value.tokens
  | .assign word name sign value => word.val :: name.val :: sign.val :: value.tokens
  | .branch word condition opening yes closing =>
    word.val :: (condition.tokens ++ opening.val :: (yes.tokens ++ [closing.val]))
  | .choice word condition opening yes closing gap otherwise opening' no closing' =>
    word.val :: (condition.tokens ++ opening.val :: (yes.tokens ++ closing.val ::
      (gap.map (·.val) ++ otherwise.val :: opening'.val :: (no.tokens ++ [closing'.val]))))
  | .loop word count opening body closing =>
    word.val :: (count.tokens ++ opening.val :: (body.tokens ++ [closing.val]))
  | .command word _ arguments _ _ _ => word :: arguments.tokens
  | .evaluate e => e.tokens

def Items.tokens : Items → List Token
  | .nil => []
  | .newline t rest => t.val :: rest.tokens
  | .last s => s.tokens
  | .line s t rest => s.tokens ++ t.val :: rest.tokens

end

mutual

def Statement.tree : Statement → Stmt
  | .declare word name _ value => .declare word.val.loc (.word name.val.text) value.tree
  | .assign word name _ value => .assign word.val.loc (.word name.val.text) value.tree
  | .branch word condition _ yes _ =>
    .branch word.val.loc condition.tree (.statements yes.trees) none
  | .choice word condition _ yes _ _ _ _ no _ =>
    .branch word.val.loc condition.tree (.statements yes.trees) (some (.statements no.trees))
  | .loop word count _ body _ => .loop word.val.loc count.tree (.statements body.trees)
  | .command word _ _ c _ _ => .command word.loc c
  | .evaluate e => .evaluate ((e.tokens.head?.map (·.loc)).getD .start) e.tree

def Items.trees : Items → List Stmt
  | .nil => []
  | .newline _ rest => rest.trees
  | .last s => [s.tree]
  | .line s _ rest => s.tree :: rest.trees

end

structure Derivation where
  items : Items
  stop : Terminal .endOfInput

namespace Derivation

def tokens (d : Derivation) : List Token := d.items.tokens ++ [d.stop.val]

def tree (d : Derivation) : Program := .ofStatements d.items.trees

end Derivation

end AgentScript.Grammar

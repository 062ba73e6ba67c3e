import AgentScript.Yaml.Cursor
import AgentScript.Yaml.Scalar

/-! Reading settings files: blocks by indentation, lists and mappings in brackets, and scalars. A
text outside of the format has no reading. -/
namespace AgentScript.Yaml

/-- The longest key that a colon may follow. -/
def keyLimit : Nat := 1024

/-- Whether a colon at `stop` makes a key of what stands from `start` on: it has to be on the same
line, and not too far. -/
def isKey (start stop : Cursor) : Bool :=
  start.line = stop.line && start.rest.length - stop.rest.length ≤ keyLimit

/-- The name that a key stands for. Lists and mappings are no keys. -/
def keyName? : Json → Option String
  | .arr _ => none
  | .obj _ => none
  | v => some v.text

def scalar (flow : Bool) (least : Nat) (c : Cursor) : Option (Json × Cursor) :=
  if c.atMarker then none
  else if c.sees Text.quoteMark || c.sees Text.apostrophe then do
    let (text, next) ← quotedScalar (c.sees Text.quoteMark) c.rest.length c.step []
    return (.str (String.ofList text), next)
  else if startsPlain flow c.rest then do
    let (text, next) := plainScalar flow least [] c.rest.length c []
    return (← plain? text, next)
  else none

mutual

def node (fuel : Nat) (flow : Bool) (least : Nat) (c : Cursor) : Option (Json × Cursor) :=
  match fuel with
  | 0 => none
  | fuel + 1 =>
    if c.sees '[' then do
      let (items, next) ← flowItems fuel c.step.skip []
      return (.arr items, next.stale)
    else if c.sees '\x7b' then do
      let (fields, next) ← flowFields fuel c.step.skip []
      return (.obj fields, next.stale)
    else scalar flow least c

/-- The value after a colon inside brackets, which may be left out. -/
def flowValue (fuel : Nat) (c : Cursor) : Option (Json × Cursor) :=
  match fuel with
  | 0 => none
  | fuel + 1 =>
    if c.sees ',' || c.sees ']' || c.sees '\x7d' then some (.null, c) else node fuel true 0 c

/-- The members of a list, up to the closing bracket. A key with its value makes a mapping of its
own. -/
def flowItems (fuel : Nat) (c : Cursor) (out : List Json) : Option (List Json × Cursor) :=
  match fuel with
  | 0 => none
  | fuel + 1 =>
    if c.sees ']' then some (out.reverse, c.step)
    else do
      let (v, next) ← node fuel true 0 c
      let next := next.skip
      let (v, next) ←
        if next.sees ':' then
          if isKey c next then do
            let key ← keyName? v
            let (w, next) ← flowValue fuel next.step.skip
            pure (Json.obj [(key, w)], next.skip)
          else none
        else pure (v, next)
      if next.sees ']' then return ((v :: out).reverse, next.step)
      else if next.sees ',' then flowItems fuel next.step.skip (v :: out)
      else none

/-- The fields of a mapping, up to the closing bracket. A key without a colon has no value. -/
def flowFields (fuel : Nat) (c : Cursor) (out : List (String × Json)) :
    Option (List (String × Json) × Cursor) :=
  match fuel with
  | 0 => none
  | fuel + 1 =>
    if c.sees '\x7d' then some (out, c.step)
    else do
      let (v, next) ← node fuel true 0 c
      let key ← keyName? v
      let next := next.skip
      let (v, next) ←
        if next.sees ':' then
          if isKey c next then do
            let (w, next) ← flowValue fuel next.step.skip
            pure (w, next.skip)
          else none
        else pure (Json.null, next)
      let out := Json.setField key v out
      if next.sees '\x7d' then return (out, next.step)
      else if next.sees ',' then flowFields fuel next.step.skip out
      else none

end

mutual

/-- A block at a place where something stands: a list, a mapping, or a node. -/
def block (fuel : Nat) (least : Nat) (c : Cursor) : Option (Json × Cursor) :=
  match fuel with
  | 0 => none
  | fuel + 1 =>
    if c.seesMark '-' then
      if c.fresh then blockItems fuel c.column false c [] else none
    else do
      let (v, next) ← node (2 * c.rest.length + 2) false least c
      let colon := next.skipSpaces
      if colon.seesMark ':' then
        if c.fresh && isKey c colon then blockFields fuel c.column c [] else none
      else return (v, next)

/-- The items of a list at a column. A list at the column of the mapping around it ends where the
next key stands. -/
def blockItems (fuel : Nat) (column : Nat) (beside : Bool) (c : Cursor) (out : List Json) :
    Option (Json × Cursor) :=
  match fuel with
  | 0 => none
  | fuel + 1 => do
    let start := { c.step with fresh := true }.skip
    let (v, next) ←
      if start.atEnd || start.column ≤ column then pure (Json.null, start)
      else block fuel (column + 1) start
    let next := next.skip
    if next.atEnd || next.column < column then return (.arr (v :: out).reverse, next)
    else if next.column = column && next.seesMark '-' then
      blockItems fuel column beside next (v :: out)
    else if next.column = column && beside then return (.arr (v :: out).reverse, next)
    else none

def blockFields (fuel : Nat) (column : Nat) (c : Cursor) (out : List (String × Json)) :
    Option (Json × Cursor) :=
  match fuel with
  | 0 => none
  | fuel + 1 => do
    let (v, next) ← node (2 * c.rest.length + 2) false (column + 1) c
    let key ← keyName? v
    let colon := next.skipSpaces
    if !(colon.seesMark ':' && isKey c colon) then none
    else
      let start := colon.step.stale.skip
      let (v, next) ←
        if start.atEnd || start.column < column then pure (Json.null, start)
        else if start.column = column then
          if start.seesMark '-' then blockItems fuel column true start []
          else pure (Json.null, start)
        else block fuel (column + 1) start
      let out := Json.setField key v out
      let next := next.skip
      if next.atEnd || next.column < column then return (.obj out, next)
      else if next.column = column then blockFields fuel column next out
      else none

end

/-- Whether nothing follows a document but marks of its end. The fuel is the length of the text. -/
def endsDocument (fuel : Nat) (c : Cursor) : Bool :=
  match fuel with
  | 0 => c.rest.isEmpty
  | fuel + 1 => c.rest.isEmpty || (c.seesTriple '.' && endsDocument fuel (c.drop 3).stale.skip)

/-- Reads the one document of a text. A text without any content stands for null. -/
def read? (text : List Char) : Option Json :=
  if !text.all isAllowed then none
  else do
    let text := if text.head? = some '\ufeff' then text.drop 1 else text
    let start := Cursor.skip { rest := text }
    let content := if start.seesTriple '-' then (start.drop 3).stale.skip else start
    let (v, next) ←
      if content.rest.isEmpty || (content.atMarker && start.seesTriple '-') then
        pure (Json.null, content)
      else block (2 * text.length + 2) 0 content
    if endsDocument text.length next.skip then return v else none

end AgentScript.Yaml

/-! Places in a source text. -/
namespace AgentScript

/-- A line and a column, both counted from one. Trees read from elsewhere may hold any integers. -/
structure Location where
  line : Int
  column : Int
deriving DecidableEq, Repr

namespace Location

def start : Location := ⟨1, 1⟩

def after (l : Location) (c : Char) : Location :=
  if c = '\n' then ⟨l.line + 1, 1⟩ else ⟨l.line, l.column + 1⟩

def afterAll (l : Location) (cs : List Char) : Location := cs.foldl after l

@[simp] theorem afterAll_append (l : Location) (cs ds : List Char) :
    l.afterAll (cs ++ ds) = (l.afterAll cs).afterAll ds :=
  List.foldl_append

end Location

end AgentScript

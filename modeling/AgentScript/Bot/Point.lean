import AgentScript.Fault

/-! Points of the world and the distances between them. -/
namespace AgentScript

structure Point where
  x : Float
  y : Float
  z : Float
deriving DecidableEq, Repr

namespace Point

/-- The face of a block that points up. -/
def up : Point := ⟨0, 1, 0⟩

def down : Point := ⟨0, -1, 0⟩

def shift (p d : Point) : Point := ⟨p.x + d.x, p.y + d.y, p.z + d.z⟩

/-- Equality of coordinates as numbers: the two zeros are equal, and not-a-number equals nothing. -/
def same (p q : Point) : Bool := p.x == q.x && p.y == q.y && p.z == q.z

/-- The square of a number. It has none if it is finite and its square is not. -/
def square (d : Float) : Except Fault Float :=
  let s := d * d
  if d.isFinite && s.isInf then .error .squareOverflow else .ok s

def distance (p q : Point) : Except Fault Float := do
  let x ← square (p.x - q.x)
  let y ← square (p.y - q.y)
  let z ← square (p.z - q.z)
  return (x + y + z).sqrt

end Point

def measure {α : Type} (size : α → Except Fault Float) :
    List α → Except Fault (List (α × Float))
  | [] => .ok []
  | a :: rest => do
    let d ← size a
    let measured ← measure size rest
    return (a, d) :: measured

/-- The first of the least: a later member wins only if it is strictly smaller. -/
def firstLeast {α : Type} (best : α × Float) : List (α × Float) → α
  | [] => best.1
  | next :: rest => firstLeast (if next.2 < best.2 then next else best) rest

def nearest? {α : Type} (place : α → Point) (origin : Point) (candidates : List α) :
    Except Fault (Option α) := do
  match ← measure (fun a => origin.distance (place a)) candidates with
  | [] => return none
  | first :: rest => return some (firstLeast first rest)

end AgentScript

import AgentScript.Number.Binary

/-! The shortest decimal that reads back to a given binary number. -/
namespace AgentScript.Number

/-- The value `digits * 10 ^ exponent`. -/
structure Decimal where
  digits : Nat
  exponent : Int
deriving Repr, DecidableEq

def digitCount (n : Nat) : Nat := (Nat.toDigits 10 n).length

/-- The least `k` with `num / den < 10 ^ k`, for a positive quotient. -/
def decimalScale (num den : Nat) : Int :=
  if den ≤ num then (digitCount (num / den) : Int)
  else 1 - (digitCount ((den - 1) / num) : Int)

/-- A magnitude seen on the decimal grid of step `10 ^ step`: `value / unit` grid steps, and the
half gaps to its neighbours counted in quarters of the mantissa's unit. -/
structure Grid where
  binary : Binary
  step : Int

namespace Grid

/-- One unit of the mantissa, over `unit` parts of a grid step. -/
def scale (g : Grid) : Nat :=
  Nat.pow 2 g.binary.exponent.toNat * Nat.pow 10 (-g.step).toNat

def unit (g : Grid) : Nat :=
  Nat.pow 2 (-g.binary.exponent).toNat * Nat.pow 10 g.step.toNat

def below (g : Grid) : Nat := g.binary.mantissa * g.scale / g.unit

/-- The grid point `d` rounds to the number: it lies within the half gaps, whose ends count
exactly when the mantissa is even. -/
def readsBack (g : Grid) (d : Nat) : Bool :=
  let low := (4 * g.binary.mantissa - (if g.binary.narrowBelow then 1 else 2)) * g.scale
  let high := (4 * g.binary.mantissa + 2) * g.scale
  let point := 4 * d * g.unit
  if g.binary.mantissa % 2 = 0 then low ≤ point && point ≤ high
  else low < point && point < high

/-- The neighbour of the number on the grid that reads back, the nearer of two, and of two equally
near ones the even one. -/
def pick (g : Grid) : Option Nat :=
  let d := g.below
  match g.readsBack d, g.readsBack (d + 1) with
  | false, false => none
  | true, false => some d
  | false, true => some (d + 1)
  | true, true =>
    match compare (2 * (g.binary.mantissa * g.scale)) ((2 * d + 1) * g.unit) with
    | .lt => some d
    | .gt => some (d + 1)
    | .eq => some (if d % 2 = 0 then d else d + 1)

end Grid

/-- Moves trailing zeros of the digits into the exponent. -/
def Decimal.strip (fuel : Nat) (d : Decimal) : Decimal :=
  match fuel with
  | 0 => d
  | n + 1 =>
    if d.digits % 10 = 0 then Decimal.strip n ⟨d.digits / 10, d.exponent + 1⟩ else d

/-- The fewest digits that read back to a positive magnitude, and of those the nearest. -/
def shortest (b : Binary) : Decimal :=
  let k := decimalScale b.quotient.1 b.quotient.2
  let found := (List.range 17).findSome? fun (i : Nat) =>
    let step := k - ((i : Int) + 1)
    (Grid.pick ⟨b, step⟩).map fun d => Decimal.mk d step
  match found with
  | some d => d.strip 18
  | none => (Decimal.mk (Grid.below ⟨b, k - 17⟩) (k - 17)).strip 18

end AgentScript.Number

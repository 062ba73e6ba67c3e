import AgentScript.Number.Shortest

/-! How numbers are written. -/
namespace AgentScript.Number

/-- Decides where positional notation ends: the power of ten of the leading digit lies in
`positionalFrom ≤ e < positionalBelow`. Integral values keep a point and a zero, and an exponent is
written with its sign and at least two digits. -/
structure Layout where
  positionalFrom : Int
  positionalBelow : Int

def Layout.exact : Layout := ⟨-4, 16⟩

def zeros (n : Nat) : String := String.ofList (List.replicate n '0')

def exponentText (e : Int) : String :=
  let digits := toString e.natAbs
  (if e < 0 then "e-" else "e+") ++ (if digits.length < 2 then "0" ++ digits else digits)

/-- Lays out `0.digits * 10 ^ point`. -/
def Layout.write (layout : Layout) (digits : List Char) (point : Int) : String :=
  let e := point - 1
  if layout.positionalFrom ≤ e ∧ e < layout.positionalBelow then
    if point ≤ 0 then "0." ++ zeros (-point).toNat ++ String.ofList digits
    else if (digits.length : Int) ≤ point then
      String.ofList digits ++ zeros (point - digits.length).toNat ++ ".0"
    else String.ofList (digits.take point.toNat) ++ "." ++ String.ofList (digits.drop point.toNat)
  else
    let tail := digits.drop 1
    String.ofList (digits.take 1) ++ (if tail.isEmpty then "" else "." ++ String.ofList tail)
      ++ exponentText e

/-- The exact text of a number: the fewest digits that read back. -/
def exactText (x : Float) : String :=
  if x.isNaN then "nan"
  else
    let sign := if negative x then "-" else ""
    if x.isInf then sign ++ "inf"
    else
      let b := magnitude x
      if b.mantissa = 0 then sign ++ "0.0"
      else
        let d := shortest b
        let digits := Nat.toDigits 10 d.digits
        sign ++ Layout.exact.write digits (digits.length + d.exponent)

/-- Whole numbers of magnitude below this bound are written without a fraction. -/
def wholeBound : Float := 1e21

/-- The text that scripts show: whole numbers lose their fraction, the rest is exact. -/
def scriptText (x : Float) : String :=
  if x.isNaN then "NaN"
  else if x.isInf then (if negative x then "-Infinity" else "Infinity")
  else if whole x && x.abs < wholeBound then toString (truncate x)
  else exactText x

/-- The nearest integer to a quotient, the even one when two are equally near. -/
def roundQuotient (num den : Nat) : Nat :=
  let q := num / den
  match compare (2 * (num % den)) den with
  | .lt => q
  | .gt => q + 1
  | .eq => if q % 2 = 0 then q else q + 1

/-- A number rounded to a fixed count of places, ties to even. -/
def fixedText (places : Nat) (x : Float) : String :=
  if x.isNaN then "nan"
  else
    let sign := if negative x then "-" else ""
    if x.isInf then sign ++ "inf"
    else
      let (num, den) := (magnitude x).quotient
      let scaled := Nat.toDigits 10 (roundQuotient (num * Nat.pow 10 places) den)
      let padded := List.replicate (places + 1 - scaled.length) '0' ++ scaled
      let split := padded.length - places
      sign ++ String.ofList (padded.take split)
        ++ (if places = 0 then "" else "." ++ String.ofList (padded.drop split))

end AgentScript.Number

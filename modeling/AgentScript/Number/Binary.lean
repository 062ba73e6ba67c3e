/-! Exact values of floating-point numbers: sign, magnitude, integral part. -/
namespace AgentScript.Number

/-- The magnitude `mantissa * 2 ^ exponent` of a finite number. -/
structure Binary where
  mantissa : Nat
  exponent : Int
  /-- The gap to the next number below is half the gap to the next one above. -/
  narrowBelow : Bool
deriving Repr, DecidableEq

def Binary.ofBits (bits : UInt64) : Binary :=
  let field := ((bits >>> 52) &&& 0x7FF).toNat
  let fraction := (bits &&& 0xFFFFFFFFFFFFF).toNat
  if field = 0 then ⟨fraction, -1074, false⟩
  else ⟨Nat.pow 2 52 + fraction, (field : Int) - 1075, fraction = 0 && 1 < field⟩

/-- The magnitude of a finite number. NaN and the infinities have none: test for them first. -/
def magnitude (x : Float) : Binary := Binary.ofBits x.toBits

/-- The sign bit, which tells the two zeros apart. -/
def negative (x : Float) : Bool := x.toBits >>> 63 = 1

def Binary.quotient (b : Binary) : Nat × Nat :=
  (b.mantissa * Nat.pow 2 b.exponent.toNat, Nat.pow 2 (-b.exponent).toNat)

theorem Binary.quotient_den_pos (b : Binary) : 0 < b.quotient.2 :=
  Nat.two_pow_pos _

def floor (x : Float) : Int :=
  let (num, den) := (magnitude x).quotient
  if negative x then -(((num + den - 1) / den : Nat) : Int) else ((num / den : Nat) : Int)

/-- The integer part of a finite number, which drops the fraction toward zero. -/
def truncate (x : Float) : Int :=
  let (num, den) := (magnitude x).quotient
  let whole : Int := ((num / den : Nat) : Int)
  if negative x then -whole else whole

def whole (x : Float) : Bool :=
  x.isFinite && (let (num, den) := (magnitude x).quotient; num % den = 0)

end AgentScript.Number

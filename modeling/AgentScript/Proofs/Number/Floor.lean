import AgentScript.Proofs.Number.Rounding
import Mathlib.Data.Rat.Floor

/-! The floor of a number is that of its exact value. -/
namespace AgentScript.Number

def Binary.value (b : Binary) : ℚ := scaled b.mantissa b.exponent

def value (x : Float) : ℚ := if negative x then -(magnitude x).value else (magnitude x).value

theorem Binary.value_eq_quotient (b : Binary) :
    b.value = (b.quotient.1 : ℚ) / (b.quotient.2 : ℚ) := by
  obtain ⟨m, e, narrow⟩ := b
  simp only [value, scaled, quotient, Nat.pow_eq]
  push_cast
  rcases Int.eq_nat_or_neg e with ⟨k, rfl | rfl⟩
  · simp
  · simp [div_eq_mul_inv]

/-- The least integer not below a quotient of naturals. -/
theorem ceil_div (num : Nat) {den : Nat} (hd : 0 < den) :
    ⌈(num : ℚ) / (den : ℚ)⌉ = (((num + den - 1) / den : Nat) : Int) := by
  have hd' : (0 : ℚ) < den := by exact_mod_cast hd
  have hdiv := Nat.div_add_mod (num + den - 1) den
  have hmod := Nat.mod_lt (num + den - 1) hd
  set q := (num + den - 1) / den
  rw [Int.ceil_eq_iff]
  constructor
  · rw [lt_div_iff₀ hd']
    have h : q * den < num + den := by
      rw [mul_comm]
      omega
    have h' : (q : ℚ) * den < num + den := by exact_mod_cast h
    push_cast
    linarith
  · rw [div_le_iff₀ hd']
    have h : num ≤ q * den := by
      rw [mul_comm]
      omega
    exact_mod_cast h

theorem floor_eq (x : Float) : floor x = ⌊value x⌋ := by
  have hd := (magnitude x).quotient_den_pos
  unfold floor value
  rw [Binary.value_eq_quotient]
  dsimp only
  split
  · rw [Int.floor_neg, ceil_div _ hd]
  · rw [Rat.floor_natCast_div_natCast]
    rfl

end AgentScript.Number

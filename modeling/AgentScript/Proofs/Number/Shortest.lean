import AgentScript.Number.Shortest
import Mathlib.Algebra.Group.Nat.Defs
import Mathlib.Tactic.ByContra

/-! The shortest decimal of a positive magnitude is not zero: zero does not read back, and the grid
that is taken when nothing does is fine enough. -/
namespace AgentScript.Number

theorem Decimal.strip_digits_pos (fuel : Nat) {d : Decimal} (h : 0 < d.digits) :
    0 < (d.strip fuel).digits := by
  induction fuel generalizing d with
  | zero => exact h
  | succ n ih =>
    unfold Decimal.strip
    split
    · exact ih (by dsimp only; omega)
    · exact h

namespace Grid

theorem scale_pos (g : Grid) : 0 < g.scale :=
  Nat.mul_pos (Nat.pow_pos (by decide)) (Nat.pow_pos (by decide))

theorem readsBack_zero {g : Grid} (h : 0 < g.binary.mantissa) : g.readsBack 0 = false := by
  have hlow : 0 < (4 * g.binary.mantissa - if g.binary.narrowBelow then 1 else 2) * g.scale := by
    refine Nat.mul_pos ?_ g.scale_pos
    split <;> omega
  unfold readsBack
  simp only [Nat.mul_zero, Nat.zero_mul]
  split
  · rw [decide_eq_false (by omega), Bool.false_and]
  · rw [decide_eq_false (by omega), Bool.false_and]

theorem pick_pos {g : Grid} (h : 0 < g.binary.mantissa) {d : Nat} (hd : g.pick = some d) :
    0 < d := by
  have below_pos : g.readsBack g.below = true → 0 < g.below := fun hb =>
    Nat.pos_of_ne_zero fun h0 => by simp [h0, readsBack_zero h] at hb
  unfold pick at hd
  dsimp only at hd
  split at hd
  · cases hd
  · next hb _ =>
    cases hd
    exact below_pos hb
  · cases hd
    omega
  · next hb _ =>
    have := below_pos hb
    split at hd <;> cases hd
    · exact this
    · omega
    · split <;> omega

end Grid

theorem lt_pow_digitCount (n : Nat) : n < 10 ^ digitCount n :=
  (Nat.length_toDigits_le_iff (by decide) Nat.length_toDigits_pos).mp (Nat.le_refl _)

theorem pow_digitCount_le {n : Nat} (h : 0 < n) : 10 ^ (digitCount n - 1) ≤ n := by
  by_contra hlt
  have hk : 0 < digitCount n - 1 := Nat.pos_of_ne_zero fun h0 => by
    rw [h0, Nat.pow_zero] at hlt
    omega
  have : digitCount n ≤ digitCount n - 1 :=
    (Nat.length_toDigits_le_iff (by decide) hk).mpr (Nat.lt_of_not_le hlt)
  omega

/-- A step of seventeen digits below the scale of a quotient is not larger than the quotient. -/
theorem step_le_quotient {num den : Nat} (hnum : 0 < num) (hden : 0 < den) :
    den * Nat.pow 10 (decimalScale num den - 17).toNat ≤
      num * Nat.pow 10 (-(decimalScale num den - 17)).toNat := by
  unfold decimalScale
  split
  · next hle =>
    have hlead : den * 10 ^ (digitCount (num / den) - 1) ≤ num :=
      Nat.le_trans (Nat.mul_le_mul_left den (pow_digitCount_le (Nat.div_pos hle hden)))
        (Nat.mul_div_le num den)
    have hpos : 0 < digitCount (num / den) := Nat.length_toDigits_pos
    have hstep : ((digitCount (num / den) : Int) - 17).toNat ≤ digitCount (num / den) - 1 := by
      omega
    calc den * 10 ^ ((digitCount (num / den) : Int) - 17).toNat
      _ ≤ den * 10 ^ (digitCount (num / den) - 1) :=
        Nat.mul_le_mul_left den (Nat.pow_le_pow_right (by decide) hstep)
      _ ≤ num := hlead
      _ ≤ num * _ := Nat.le_mul_of_pos_right num (Nat.pow_pos (by decide))
  · next hlt =>
    generalize hc : digitCount ((den - 1) / num) = c
    have hq : (den - 1) / num < 10 ^ c := hc ▸ lt_pow_digitCount _
    have hstep : c ≤ (-(1 - (c : Int) - 17)).toNat := by omega
    have hzero : (1 - (c : Int) - 17).toNat = 0 := by omega
    have hlast : den - 1 < num * 10 ^ c := calc den - 1
      _ < num * ((den - 1) / num + 1) := Nat.lt_mul_div_succ (den - 1) hnum
      _ ≤ num * 10 ^ c := Nat.mul_le_mul_left num hq
    calc den * 10 ^ (1 - (c : Int) - 17).toNat
      _ = den := by rw [hzero, Nat.pow_zero, Nat.mul_one]
      _ ≤ num * 10 ^ c := by omega
      _ ≤ num * _ := Nat.mul_le_mul_left num (Nat.pow_le_pow_right (by decide) hstep)

theorem below_pos {b : Binary} (h : 0 < b.mantissa) :
    0 < Grid.below ⟨b, decimalScale b.quotient.1 b.quotient.2 - 17⟩ := by
  refine Nat.div_pos ?_ (Nat.mul_pos (Nat.pow_pos (by decide)) (Nat.pow_pos (by decide)))
  have hnum : 0 < b.quotient.1 := Nat.mul_pos h (Nat.pow_pos (by decide))
  simpa only [Grid.unit, Grid.scale, Binary.quotient, Nat.mul_assoc] using
    step_le_quotient hnum b.quotient_den_pos

theorem shortest_digits_pos {b : Binary} (h : 0 < b.mantissa) : 0 < (shortest b).digits := by
  unfold shortest
  dsimp only
  split
  · next d hd =>
    obtain ⟨i, -, hi⟩ := List.exists_of_findSome?_eq_some hd
    obtain ⟨n, hn, rfl⟩ := Option.map_eq_some_iff.mp hi
    exact Decimal.strip_digits_pos 18 (Grid.pick_pos h hn)
  · exact Decimal.strip_digits_pos 18 (below_pos h)

end AgentScript.Number

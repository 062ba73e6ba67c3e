import AgentScript.Proofs.Number.Order

/-! Rounding keeps the order of numbers, so that to add something positive never leads below. -/
namespace AgentScript.Number

open Float.Model Float.Model.UnpackedFloat

def scaled (m : Nat) (e : Int) : ℚ := m * 2 ^ e

section Scaled

theorem scaled_le_scaled {m n : Nat} {e : Int} : scaled m e ≤ scaled n e ↔ m ≤ n := by
  unfold scaled
  rw [mul_le_mul_iff_left₀ (by positivity), Nat.cast_le]

theorem scaled_lt_scaled {m n : Nat} {e : Int} : scaled m e < scaled n e ↔ m < n := by
  rw [← not_le, scaled_le_scaled, not_le]

theorem scaled_inj {m n : Nat} {e : Int} (h : scaled m e = scaled n e) : m = n :=
  Nat.le_antisymm (scaled_le_scaled.mp h.le) (scaled_le_scaled.mp h.ge)

/-- A greater exponent stands for zeros behind the mantissa. -/
theorem scaled_add (m : Nat) (e : Int) (k : Nat) : scaled m (e + k) = scaled (m * 2 ^ k) e := by
  unfold scaled
  rw [zpow_add₀ (by norm_num), zpow_natCast]
  push_cast
  ring

end Scaled

section Shifts

theorem mantissa_shift (em : ExtendedMantissa) (k : Nat) :
    (em >>> k).mantissa = em.mantissa / 2 ^ k := by
  induction k with
  | zero => exact (Nat.div_one _).symm
  | succ k ih =>
    change (em >>> k).mantissa / 2 = _
    rw [ih, Nat.div_div_eq_div_mul, pow_succ]

/-- Nothing is lost when only zeros are shifted out. -/
theorem shift_of_dvd {m k : Nat} (h : 2 ^ k ∣ m) :
    (⟨m, false, false⟩ : ExtendedMantissa) >>> k = ⟨m / 2 ^ k, false, false⟩ := by
  induction k with
  | zero => rw [pow_zero, Nat.div_one]; rfl
  | succ k ih =>
    obtain ⟨n, rfl⟩ := h
    have hdiv : 2 ^ (k + 1) * n / 2 ^ k = 2 * n := by
      rw [pow_succ, mul_assoc, Nat.mul_div_cancel_left _ (Nat.two_pow_pos k)]
    change ExtendedMantissa.shiftRightOne ((⟨_, false, false⟩ : ExtendedMantissa) >>> k) = _
    rw [ih ⟨2 * n, by rw [pow_succ, mul_assoc]⟩, hdiv, ExtendedMantissa.shiftRightOne]
    simp [Nat.mul_div_cancel_left _ (Nat.two_pow_pos (k + 1))]

theorem roundedMantissa_bounds (em : ExtendedMantissa) :
    em.mantissa ≤ em.roundedMantissa ∧ em.roundedMantissa ≤ em.mantissa + 1 := by
  obtain ⟨m, r, s⟩ := em
  cases r with
  | false => cases s <;> exact ⟨Nat.le_refl m, Nat.le_succ m⟩
  | true =>
    cases s with
    | false =>
      change m ≤ m + m % 2 ∧ m + m % 2 ≤ m + 1
      omega
    | true => exact ⟨Nat.le_succ m, Nat.le_refl _⟩

end Shifts

/-- A value lies between two multiples of a unit in the last place and is rounded to one of them. -/
structure Near (value : ℚ) (q r : Nat) (t : Int) : Prop where
  below : scaled q t ≤ value
  above : value < scaled (q + 1) t
  lower : q ≤ r
  upper : r ≤ q + 1
  exact : value = scaled q t → r = q
  bound : q < 2 ^ 53
  least : -1074 ≤ t
  full : 2 ^ 52 ≤ q ∨ t = -1074

/-- The number of so many units. There may be one too many for the bits of a mantissa. -/
def units (s : Sign) (r : Nat) (t : Int) : UnpackedFloat :=
  if h : r = 0 then .zero s
  else if r = 2 ^ 53 then .finite s (2 ^ 52) (t + 1) (by decide)
  else .finite s r t (Nat.pos_of_ne_zero h)

theorem targetExponent_eq (m : Nat) (e : Int) :
    Format.binary64.targetExponent (totalExponent m e) =
      max ((m.log2 : Int) + 1 + e - 53) (-1074) := rfl

theorem shift_eq {m k : Nat} {e t : Int} (ht : e + k = t)
    (hk : (Format.binary64.targetExponent (totalExponent m e) - e).toNat = k) :
    shiftToTargetExponent Format.binary64 m e .exact =
      ((⟨m, false, false⟩ : ExtendedMantissa) >>> k, t) := by
  rw [← ht, ← hk]
  rfl

/-- Another shift makes room for a mantissa that has one bit too many. -/
theorem carry_units (s : Sign) {r : Nat} {t : Int} (hr : r ≤ 2 ^ 53) (ht : -1074 ≤ t) :
    (if h : (shiftToTargetExponent Format.binary64 r t .exact).1.mantissa = 0 then .zero s
      else .finite s (shiftToTargetExponent Format.binary64 r t .exact).1.mantissa
        (shiftToTargetExponent Format.binary64 r t .exact).2 (Nat.pos_of_ne_zero h)) =
      units s r t := by
  by_cases hbig : r = 2 ^ 53
  · subst hbig
    have hshift := shift_eq (m := 2 ^ 53) (k := 1) (e := t) rfl (by
      rw [targetExponent_eq, Nat.log2_two_pow]
      omega)
    rw [hshift]
    rfl
  · have hlog : r.log2 < 53 := by
      by_cases hz : r = 0
      · rw [hz, Nat.log2_zero]
        decide
      · exact (Nat.log2_lt hz).mpr (by omega)
    have hshift := shift_eq (m := r) (k := 0) (Int.add_zero t) (by
      rw [targetExponent_eq]
      omega)
    rw [hshift, units]
    simp only [hbig, if_false]
    rfl

theorem near_shift {m k : Nat} (hm : 0 < m) {e : Int}
    (ht : max ((m.log2 : Int) + 1 + e - 53) (-1074) = e + k) :
    Near (scaled m e) (m / 2 ^ k)
      ((⟨m, false, false⟩ : ExtendedMantissa) >>> k).roundedMantissa (e + k) := by
  have hrounded := roundedMantissa_bounds ((⟨m, false, false⟩ : ExtendedMantissa) >>> k)
  rw [mantissa_shift] at hrounded
  have hlog : m < 2 ^ (m.log2 + 1) := Nat.lt_log2_self
  have hlog' : 2 ^ m.log2 ≤ m := Nat.log2_self_le hm.ne'
  constructor
  · rw [scaled_add, scaled_le_scaled]
    exact Nat.div_mul_le_self m _
  · rw [scaled_add, scaled_lt_scaled]
    exact Nat.lt_mul_of_div_lt (Nat.lt_succ_self _) (Nat.two_pow_pos k)
  · exact hrounded.1
  · exact hrounded.2
  · intro he
    rw [scaled_add] at he
    have hdvd : 2 ^ k ∣ m := ⟨m / 2 ^ k, by rw [Nat.mul_comm]; exact scaled_inj he⟩
    rw [shift_of_dvd hdvd]
    rfl
  · refine Nat.div_lt_of_lt_mul (hlog.trans_le ?_)
    rw [← pow_add]
    exact Nat.pow_le_pow_right (by decide) (by omega)
  · omega
  · rcases max_choice ((m.log2 : Int) + 1 + e - 53) (-1074) with hmax | hmax
    · refine .inl ((Nat.le_div_iff_mul_le (Nat.two_pow_pos k)).mpr (le_trans ?_ hlog'))
      rw [← pow_add]
      exact Nat.pow_le_pow_right (by decide) (by omega)
    · exact .inr (by omega)

theorem roundWithAccuracy_units (s : Sign) {m : Nat} (hm : 0 < m) {e t : Int} (he : e ≤ t)
    (ht : Format.binary64.targetExponent (totalExponent m e) = t) :
    ∃ q r, Near (scaled m e) q r t ∧
      roundWithAccuracy Format.binary64 s m e .exact = units s r t := by
  obtain ⟨k, rfl⟩ := Int.le.dest he
  have hnear := near_shift hm ht
  refine ⟨_, _, hnear, ?_⟩
  have hshift := shift_eq (m := m) (k := k) (e := e) rfl (by omega)
  unfold roundWithAccuracy
  rw [hshift]
  exact carry_units s (hnear.upper.trans hnear.bound) hnear.least

theorem log2_mul_two_pow {m : Nat} (hm : 0 < m) (k : Nat) : (m * 2 ^ k).log2 = m.log2 + k := by
  have hpow := Nat.two_pow_pos k
  refine (Nat.log2_eq_iff (Nat.mul_pos hm hpow).ne').mpr ⟨?_, ?_⟩
  · rw [pow_add]
    exact Nat.mul_le_mul_right _ (Nat.log2_self_le hm.ne')
  · rw [Nat.add_right_comm, pow_add]
    exact Nat.mul_lt_mul_of_pos_right Nat.lt_log2_self hpow

/-- What rounding comes to. -/
theorem round_units (s : Sign) {m : Nat} (hm : 0 < m) (e : Int) :
    ∃ q r t, Near (scaled m e) q r t ∧ UnpackedFloat.round Format.binary64 s m e = units s r t := by
  generalize ht : Format.binary64.targetExponent (totalExponent m e) = t
  obtain ⟨k, hk⟩ : ∃ k : Nat, (e - t).toNat = k := ⟨_, rfl⟩
  have hround : UnpackedFloat.round Format.binary64 s m e =
      roundWithAccuracy Format.binary64 s (m * 2 ^ k) (e - k) .exact := by
    unfold UnpackedFloat.round decreaseExponent
    simp only [ht, hk, Nat.shiftLeft_eq]
  have hscaled : scaled (m * 2 ^ k) (e - k) = scaled m e := by
    rw [← scaled_add, Int.sub_add_cancel]
  have ht' : Format.binary64.targetExponent (totalExponent (m * 2 ^ k) (e - k)) = t := by
    rw [← ht, targetExponent_eq, targetExponent_eq, log2_mul_two_pow hm]
    push_cast
    rw [show (m.log2 : Int) + k + 1 + (e - k) = m.log2 + 1 + e by ring]
  obtain ⟨q, r, hnear, heq⟩ := roundWithAccuracy_units s
    (Nat.mul_pos hm (Nat.two_pow_pos k)) (by omega) ht'
  rw [hscaled] at hnear
  exact ⟨q, r, t, hnear, hround.trans heq⟩

section Order

variable {value : ℚ} {q r m : Nat} {t e : Int}

/-- What so many units come to: zero, a power of two, or just these units. -/
theorem Near.units_cases (h : Near value q r t) (s : Sign) :
    (r = 0 ∧ units s r t = .zero s) ∨
    (r = 2 ^ 53 ∧ Canonical (2 ^ 52) (t + 1) ∧
      units s r t = .finite s (2 ^ 52) (t + 1) (by decide)) ∨
    (r ≠ 2 ^ 53 ∧ Canonical r t ∧ ∃ hr, units s r t = .finite s r t hr) := by
  obtain ⟨-, -, hlower, hupper, -, hbound, hleast, hfull⟩ := h
  unfold units
  by_cases hzero : r = 0
  · exact .inl ⟨hzero, dif_pos hzero⟩
  · rw [dif_neg hzero]
    by_cases hbig : r = 2 ^ 53
    · rw [if_pos hbig]
      exact .inr (.inl ⟨hbig, ⟨by decide, by decide, by omega, .inl (Nat.le_refl _)⟩, rfl⟩)
    · rw [if_neg hbig]
      exact .inr (.inr ⟨hbig, ⟨by omega, by omega, hleast, by omega⟩, _, rfl⟩)

/-- Greater exponents go with greater values. -/
theorem Canonical.two_pow_le (h : Canonical m e) (ht : -1074 ≤ t) (hlt : t < e) :
    scaled (2 ^ 53) t ≤ scaled m e := by
  obtain ⟨k, rfl⟩ := Int.lt.dest hlt
  have hm : 2 ^ 52 ≤ m := h.full.resolve_right (by omega)
  rw [show t + k.succ = t + ((k + 1 : Nat) : Int) from rfl, scaled_add, scaled_le_scaled, pow_succ]
  calc 2 ^ 53 = 2 ^ 52 * (1 * 2) := rfl
    _ ≤ m * (2 ^ k * 2) := Nat.mul_le_mul hm (Nat.mul_le_mul_right 2 (Nat.two_pow_pos k))

/-- A number that is not above a value is not above what the value is rounded to. -/
theorem Near.le_units (h : Near value q r t) (s : Sign) (hc : Canonical m e)
    (hle : scaled m e ≤ value) :
    ∃ m' e' hm', units s r t = .finite s m' e' hm' ∧ Canonical m' e' ∧
      (e < e' ∨ e = e' ∧ m ≤ m') := by
  have het : e ≤ t := by
    by_contra hlt
    have hbig := (hc.two_pow_le h.least (by omega)).trans_lt (hle.trans_lt h.above)
    have := scaled_lt_scaled.mp hbig
    have := h.bound
    omega
  have hcompare : e < t ∨ e = t ∧ m ≤ q := by
    rcases het.lt_or_eq with hlt | rfl
    · exact .inl hlt
    · have := scaled_lt_scaled.mp (hle.trans_lt h.above)
      exact .inr ⟨rfl, by omega⟩
  have hpos : 0 < r := by
    have := h.lower
    rcases hcompare with hlt | ⟨-, hmq⟩
    · have := hc.least
      have := h.full.resolve_right (by omega)
      omega
    · have := hc.pos
      omega
  have := h.lower
  rcases h.units_cases s with ⟨hr, -⟩ | ⟨-, hcanonical, hu⟩ | ⟨-, hcanonical, hr, hu⟩
  · omega
  · exact ⟨_, _, _, hu, hcanonical, .inl (by omega)⟩
  · exact ⟨_, _, _, hu, hcanonical, by omega⟩

/-- A number that is not below a value is not below what the value is rounded to. -/
theorem Near.units_le (h : Near value q r t) (s : Sign) (hc : Canonical m e)
    (hle : value ≤ scaled m e) :
    units s r t = .zero s ∨ ∃ m' e' hm', units s r t = .finite s m' e' hm' ∧ Canonical m' e' ∧
      (e' < e ∨ e' = e ∧ m' ≤ m) := by
  have hte : t ≤ e := by
    by_contra hlt
    have hq : Canonical q t := by
      have hleast := hc.least
      have hfull := h.full.resolve_right (by omega)
      exact ⟨by omega, h.bound, h.least, .inl hfull⟩
    have := scaled_le_scaled.mp ((hq.two_pow_le hc.least (by omega)).trans (h.below.trans hle))
    have := hc.bound
    omega
  rcases hte.lt_or_eq with hlt | rfl
  · have hm : 2 ^ 52 ≤ m := by
      have := h.least
      exact hc.full.resolve_right (by omega)
    rcases h.units_cases s with ⟨-, hu⟩ | ⟨-, hcanonical, hu⟩ | ⟨-, hcanonical, hr, hu⟩
    · exact .inl hu
    · exact .inr ⟨_, _, _, hu, hcanonical, by omega⟩
    · exact .inr ⟨_, _, _, hu, hcanonical, .inl hlt⟩
  · have hrm : r ≤ m := by
      have hqm := scaled_le_scaled.mp (h.below.trans hle)
      rcases hqm.lt_or_eq with hlt | rfl
      · have := h.upper
        omega
      · exact (h.exact (le_antisymm hle h.below)).le
    have := hc.bound
    rcases h.units_cases s with ⟨-, hu⟩ | ⟨hbig, -⟩ | ⟨-, hcanonical, hr, hu⟩
    · exact .inl hu
    · omega
    · exact .inr ⟨_, _, _, hu, hcanonical, .inr ⟨rfl, hrm⟩⟩

end Order

end AgentScript.Number

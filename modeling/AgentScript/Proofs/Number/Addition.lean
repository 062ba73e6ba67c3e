import AgentScript.Proofs.Number.Rounding

/-! To add something positive to a number leads above the number, or leaves it as it is. -/
namespace AgentScript.Number

open Float.Model Float.Model.UnpackedFloat

/-- The sum of two numbers taken apart, before it is put together again. -/
abbrev sum (x d : Float) : UnpackedFloat :=
  UnpackedFloat.add Format.binary64 x.toModel.unpack d.toModel.unpack

theorem unpack_add (x d : Float) : (x + d).toModel.unpack =
    UnpackedFloat.unpack Format.binary64 (UnpackedFloat.pack Format.binary64 (sum x d)) := rfl

/-- A sum that is some number is put together to that number. -/
theorem add_eq_of_sum {x d y : Float} (h : sum x d = y.toModel.unpack) : x + d = y := by
  have hy : UnpackedFloat.pack Format.binary64 y.toModel.unpack = y.toModel.toBits.toBitVec :=
    pack_unpack_of_valid y.toModel.valid
  have hbits : (x + d).toModel.toBits.toBitVec =
      UnpackedFloat.pack Format.binary64 (sum x d) := rfl
  rw [h, hy] at hbits
  exact Float.toBits_inj.mp (UInt64.toBitVec_inj.mp hbits)

theorem unpack_zero : (0 : Float).toModel.unpack = .zero .positive := by rfl

theorem unpack_pack_zero (s : Sign) : UnpackedFloat.unpack Format.binary64
    (UnpackedFloat.pack Format.binary64 (.zero s)) = .zero s := unpack_packedZero

section Positive

variable {x d : Float} {m n : Nat} {e k : Int} {hm : 0 < m} {hn : 0 < n}

/-- The finite numbers above zero. -/
theorem unpack_of_pos (hf : d.isFinite = true) (h : 0 < d) :
    ∃ n k hn, d.toModel.unpack = .finite .positive n k hn := by
  change d.toModel.unpack.isFinite = true at hf
  rw [lt_iff, unpack_zero] at h
  cases hd : d.toModel.unpack with
  | notANumber =>
    rw [hd] at hf
    cases hf
  | infinity s =>
    rw [hd] at hf
    cases hf
  | zero s =>
    rw [hd] at h
    cases h
  | finite s n k hn =>
    rw [hd] at h
    cases s with
    | negative => cases h
    | positive => exact ⟨n, k, hn, rfl⟩

theorem scaled_decrease (m : Nat) {e least : Int} (h : least ≤ e) :
    scaled (m <<< (e - least).toNat) least = scaled m e := by
  rw [Nat.shiftLeft_eq, ← scaled_add]
  congr 1
  omega

theorem normalize_pos {m : Nat} (hm : 0 < m) (e : Int) (s : Sign) :
    UnpackedFloat.normalize Format.binary64 m e s =
      UnpackedFloat.round Format.binary64 .positive m e := by
  have h : compare (m : Int) 0 = .gt := compare_gt_iff_gt.mpr (by omega)
  unfold UnpackedFloat.normalize
  rw [h]
  rfl

theorem normalize_neg {m : Nat} (hm : 0 < m) (e : Int) (s : Sign) :
    UnpackedFloat.normalize Format.binary64 (-m) e s =
      UnpackedFloat.round Format.binary64 .negative m e := by
  have h : compare (-m : Int) 0 = .lt := compare_lt_iff_lt.mpr (by omega)
  unfold UnpackedFloat.normalize
  rw [h]
  simp only [Int.neg_neg, Int.toNat_natCast]

theorem lt_add_of_sum {y : UnpackedFloat} (hs : sum x d = y)
    (h : x.toModel.unpack.compare (UnpackedFloat.unpack Format.binary64
      (UnpackedFloat.pack Format.binary64 y)) = some .lt) : x < x + d := by
  rw [lt_iff, unpack_add, hs]
  exact h

theorem lt_add_or_eq_of_positive (hx : x.toModel.unpack = .finite .positive m e hm)
    (hd : d.toModel.unpack = .finite .positive n k hn) : x < x + d ∨ x + d = x := by
  have hc := canonical_of_unpack (b := x.toModel.toBits.toBitVec) hx
  generalize ha : m <<< (e - min e k).toNat = a
  generalize hb : n <<< (k - min e k).toNat = b
  have hscaled : scaled a (min e k) = scaled m e := ha ▸ scaled_decrease m (min_le_left e k)
  have hpos : 0 < a := by
    rw [← ha, Nat.shiftLeft_eq]
    exact Nat.mul_pos hm (Nat.two_pow_pos _)
  have hsum : sum x d = UnpackedFloat.round Format.binary64 .positive (a + b) (min e k) := by
    rw [← normalize_pos (by omega) _ .positive, sum, hx, hd, ← ha, ← hb]
    rfl
  have hle : scaled m e ≤ scaled (a + b) (min e k) :=
    hscaled ▸ scaled_le_scaled.mpr (Nat.le_add_right a b)
  obtain ⟨q, r, t, hnear, hround⟩ := round_units .positive (show 0 < a + b by omega) (min e k)
  obtain ⟨m', e', hm', hu, hc', horder⟩ := hnear.le_units .positive hc hle
  rw [hround, hu] at hsum
  by_cases hsame : e = e' ∧ m = m'
  · obtain ⟨rfl, rfl⟩ := hsame
    exact .inr (add_eq_of_sum (hsum.trans hx.symm))
  · refine .inl (lt_add_of_sum hsum ?_)
    rw [hx, unpack_pack hc']
    split
    · exact congrArg some ((lex_eq_lt _ _ _ _).mpr (by omega))
    · rfl

/-- A number below zero is below what is not below zero. -/
theorem lt_add_of_sign (hx : x.toModel.unpack = .finite .negative m e hm) {q r : Nat} {t : Int}
    {value : ℚ} (hnear : Near value q r t) (hs : sum x d = units .positive r t) : x < x + d := by
  refine lt_add_of_sum hs ?_
  rw [hx]
  rcases hnear.units_cases .positive with ⟨-, hu⟩ | ⟨-, hc, hu⟩ | ⟨-, hc, hr, hu⟩
  · rw [hu, unpack_pack_zero]
    rfl
  · rw [hu, unpack_pack hc]
    split <;> rfl
  · rw [hu, unpack_pack hc]
    split <;> rfl

theorem lt_add_or_eq_of_negative (hx : x.toModel.unpack = .finite .negative m e hm)
    (hd : d.toModel.unpack = .finite .positive n k hn) : x < x + d ∨ x + d = x := by
  have hc := canonical_of_unpack (b := x.toModel.toBits.toBitVec) hx
  generalize ha : m <<< (e - min e k).toNat = a
  generalize hb : n <<< (k - min e k).toNat = b
  have hscaled : scaled a (min e k) = scaled m e := ha ▸ scaled_decrease m (min_le_left e k)
  have hsum : sum x d =
      UnpackedFloat.normalize Format.binary64 (-(a : Int) + b) (min e k) .positive := by
    rw [sum, hx, hd, ← ha, ← hb]
    rfl
  rcases Nat.lt_trichotomy a b with hlt | rfl | hlt
  · rw [show -(a : Int) + b = ((b - a : Nat) : Int) by omega, normalize_pos (by omega)] at hsum
    obtain ⟨q, r, t, hnear, hround⟩ := round_units .positive (show 0 < b - a by omega) (min e k)
    exact .inl (lt_add_of_sign hx hnear (hsum.trans hround))
  · rw [show -(a : Int) + a = 0 by omega] at hsum
    refine .inl (lt_add_of_sum (y := .zero .positive) hsum ?_)
    rw [hx, unpack_pack_zero]
    rfl
  · rw [show -(a : Int) + b = -((a - b : Nat) : Int) by omega, normalize_neg (by omega)] at hsum
    obtain ⟨q, r, t, hnear, hround⟩ := round_units .negative (show 0 < a - b by omega) (min e k)
    have hle : scaled (a - b) (min e k) ≤ scaled m e :=
      hscaled ▸ scaled_le_scaled.mpr (Nat.sub_le a b)
    rw [hround] at hsum
    rcases hnear.units_le .negative hc hle with hu | ⟨m', e', hm', hu, hc', horder⟩
    · refine .inl (lt_add_of_sum (hsum.trans hu) ?_)
      rw [hx, unpack_pack_zero]
      rfl
    · rw [hu] at hsum
      by_cases hsame : e' = e ∧ m' = m
      · obtain ⟨rfl, rfl⟩ := hsame
        exact .inr (add_eq_of_sum (hsum.trans hx.symm))
      · refine .inl (lt_add_of_sum hsum ?_)
        have he : e ≤ 971 := exponent_le_of_unpack (b := x.toModel.toBits.toBitVec) hx
        rw [hx, unpack_pack hc', if_pos (by omega)]
        refine congrArg some ?_
        rw [lex_swap]
        exact (lex_eq_lt _ _ _ _).mpr (by omega)

end Positive

theorem lt_add_or_eq {x d : Float} (hf : d.isFinite = true) (h : 0 < d) :
    x < x + d ∨ x + d = x := by
  obtain ⟨n, k, hn, hd⟩ := unpack_of_pos hf h
  cases hx : x.toModel.unpack with
  | notANumber => exact .inr (add_eq_of_sum (by rw [sum, hx, hd]; rfl))
  | infinity s => exact .inr (add_eq_of_sum (by rw [sum, hx, hd]; rfl))
  | zero s =>
    have hsum : x + d = d := add_eq_of_sum (by rw [sum, hx, hd]; rfl)
    left
    rw [hsum, lt_iff, hx, hd]
    rfl
  | finite s m e hm =>
    cases s with
    | positive => exact lt_add_or_eq_of_positive hx hd
    | negative => exact lt_add_or_eq_of_negative hx hd

section Zero

variable {x d y : Float}

theorem unpack_of_beq_zero (h : (d == 0) = true) : ∃ s, d.toModel.unpack = .zero s := by
  rw [beq_iff, unpack_zero] at h
  cases hd : d.toModel.unpack with
  | notANumber =>
    rw [hd] at h
    cases h
  | infinity s =>
    rw [hd] at h
    cases s <;> cases h
  | zero s => exact ⟨s, rfl⟩
  | finite s m e hm =>
    rw [hd] at h
    cases s <;> cases h

/-- To add something positive does not lead below where zero leads. -/
theorem not_add_lt_add_zero (hf : y.isFinite = true) (hy : 0 < y) (hd : (d == 0) = true) :
    ¬ x + y < x + d := by
  obtain ⟨s, hs⟩ := unpack_of_beq_zero hd
  have same (h : sum x d = x.toModel.unpack) : ¬ x + y < x + d := by
    rw [add_eq_of_sum h]
    rcases lt_add_or_eq hf hy with hlt | heq
    · exact lt_asymm hlt
    · rw [heq]
      exact lt_irrefl x
  cases hx : x.toModel.unpack with
  | notANumber => exact same (by rw [sum, hx, hs]; rfl)
  | infinity s' => exact same (by rw [sum, hx, hs]; rfl)
  | finite s' m e hm => exact same (by rw [sum, hx, hs]; rfl)
  | zero s' =>
    obtain ⟨n, k, hn, hu⟩ := unpack_of_pos hf hy
    have hxy : x + y = y := add_eq_of_sum (by rw [sum, hx, hu]; rfl)
    obtain ⟨s'', hxd⟩ : ∃ s'', sum x d = .zero s'' := by
      rw [sum, hx, hs]
      cases s <;> cases s' <;> exact ⟨_, rfl⟩
    rw [hxy, lt_iff, hu, unpack_add, hxd, unpack_pack_zero]
    exact fun h => nomatch h

end Zero

end AgentScript.Number

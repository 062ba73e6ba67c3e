import AgentScript.Proofs.Number.Unpacked

/-! The order of numbers, by sign, exponent and mantissa. -/
namespace AgentScript.Number

open Float.Model Float.Model.UnpackedFloat

section Compare

variable (e e' : Int) (m m' : Nat)

theorem lex_isLE : ((compare e e').then (compare m m')).isLE = true ↔ e < e' ∨ e = e' ∧ m ≤ m' := by
  rcases lt_trichotomy e e' with h | h | h
  · simp [compare_lt_iff_lt.mpr h, h]
  · subst h
    simp [Nat.isLE_compare]
  · simp [compare_gt_iff_gt.mpr h]
    omega

theorem lex_eq_lt : (compare e e').then (compare m m') = .lt ↔ e < e' ∨ e = e' ∧ m < m' := by
  simp [Ordering.then_eq_lt, compare_lt_iff_lt]

theorem lex_swap : ((compare e e').then (compare m m')).swap =
    (compare e' e).then (compare m' m) := by
  rw [Ordering.swap_then, Std.OrientedOrd.eq_swap (a := e), Std.OrientedOrd.eq_swap (a := m),
    Ordering.swap_swap, Ordering.swap_swap]

end Compare

theorem compare_swap (a b : UnpackedFloat) : b.compare a = (a.compare b).map Ordering.swap := by
  cases a with
  | notANumber => cases b <;> rfl
  | infinity s =>
    cases b with
    | infinity s' => cases s <;> cases s' <;> rfl
    | _ => cases s <;> rfl
  | zero s =>
    cases b with
    | infinity s' => cases s' <;> rfl
    | finite s' => cases s' <;> rfl
    | _ => rfl
  | finite s m e hm =>
    cases b with
    | notANumber => cases s <;> rfl
    | infinity s' => cases s <;> cases s' <;> rfl
    | zero s' => cases s <;> rfl
    | finite s' m' e' hm' =>
      cases s with
      | positive =>
        cases s' with
        | positive => simp only [UnpackedFloat.compare, Option.map_some, lex_swap]
        | negative => rfl
      | negative =>
        cases s' with
        | positive => rfl
        | negative => simp only [UnpackedFloat.compare, Option.map_some, lex_swap]

theorem lt_iff {x y : Float} : x < y ↔ x.toModel.unpack.compare y.toModel.unpack = some .lt := by
  change decide (UnpackedFloat.lt x.toModel.unpack y.toModel.unpack = true) = true ↔ _
  rw [decide_eq_true_eq, UnpackedFloat.lt, beq_iff_eq]

theorem le_iff {x y : Float} :
    x ≤ y ↔ (x.toModel.unpack.compare y.toModel.unpack).any Ordering.isLE = true := by
  change decide (UnpackedFloat.le x.toModel.unpack y.toModel.unpack = true) = true ↔ _
  rw [decide_eq_true_eq, UnpackedFloat.le]

theorem lt_asymm {x y : Float} (h : x < y) : ¬ y < x := by
  rw [lt_iff] at h
  rw [lt_iff, compare_swap, h]
  decide

theorem lt_irrefl (x : Float) : ¬ x < x := fun h => lt_asymm h h

theorem not_le_of_lt {x y : Float} (h : x < y) : ¬ y ≤ x := by
  rw [lt_iff] at h
  rw [le_iff, compare_swap, h]
  decide

theorem beq_iff {x y : Float} :
    (x == y) = true ↔ x.toModel.unpack.compare y.toModel.unpack = some .eq := by
  change UnpackedFloat.beq x.toModel.unpack y.toModel.unpack = true ↔ _
  rw [UnpackedFloat.beq, beq_iff_eq]

theorem beq_symm {x y : Float} (h : (x == y) = true) : (y == x) = true := by
  rw [beq_iff] at h
  rw [beq_iff, compare_swap, h]
  rfl

theorem beq_trans {x y z : Float} (hxy : (x == y) = true) (hyz : (y == z) = true) :
    (x == z) = true := by
  rw [Float.beq_iff_ne_nan_and_eq] at hxy hyz ⊢
  obtain ⟨hx, -, hxy⟩ := hxy
  obtain ⟨-, hz, hyz⟩ := hyz
  refine ⟨hx, hz, ?_⟩
  grind

theorem not_lt_of_beq {x y : Float} (h : (x == y) = true) : ¬ y < x := by
  rw [beq_iff] at h
  rw [lt_iff, compare_swap, h]
  decide

theorem lt_or_beq_of_le {x y : Float} (h : x ≤ y) : x < y ∨ (x == y) = true := by
  rw [le_iff] at h
  rw [lt_iff, beq_iff]
  cases hc : x.toModel.unpack.compare y.toModel.unpack with
  | none =>
    rw [hc] at h
    cases h
  | some o =>
    rw [hc] at h
    cases o with
    | lt => exact .inl rfl
    | eq => exact .inr rfl
    | gt => cases h

section Floats

variable {x : Float}

theorem isNaN_of_isFinite (h : x.isFinite = true) : x.isNaN = false := by
  change x.toModel.unpack.isFinite = true at h
  change x.toModel.unpack.isNaN = false
  cases hx : x.toModel.unpack <;> rw [hx] at h <;> first | rfl | cases h

/-- The numbers that are finite and not less than one. -/
theorem unpack_of_one_le (hf : x.isFinite = true) (h : 1 ≤ x) :
    ∃ m e hm, x.toModel.unpack = .finite .positive m e hm ∧ 2 ^ 52 ≤ m ∧ -52 ≤ e := by
  have hone : (1 : Float).toModel.unpack = .finite .positive (2 ^ 52) (-52) (by decide) := by
    rfl
  change x.toModel.unpack.isFinite = true at hf
  rw [le_iff, hone] at h
  cases hx : x.toModel.unpack with
  | notANumber =>
    rw [hx] at hf
    cases hf
  | infinity s =>
    rw [hx] at hf
    cases hf
  | zero s =>
    rw [hx] at h
    cases h
  | finite s m e hm =>
    rw [hx] at h
    have hc := canonical_of_unpack (b := x.toBits.toBitVec) hx
    cases s with
    | negative => cases h
    | positive =>
      refine ⟨m, e, hm, rfl, ?_⟩
      rcases (lex_isLE _ _ _ _).mp h with he | ⟨he, hmant⟩
      · exact ⟨hc.full.resolve_right (by omega), by omega⟩
      · exact ⟨hmant, by omega⟩

/-- To count down from a number that is not less than one comes to one at least. -/
theorem one_le_floor (hf : x.isFinite = true) (h : 1 ≤ x) : 1 ≤ floor x := by
  obtain ⟨m, e, hm, hx, hmant, he⟩ := unpack_of_one_le hf h
  obtain ⟨hxm, hxe⟩ := magnitude_of_unpack hx
  have hden : 2 ^ (-e).toNat ≤ 2 ^ 52 := Nat.pow_le_pow_right (by decide) (by omega)
  have hnum : m ≤ m * 2 ^ e.toNat := Nat.le_mul_of_pos_right m (Nat.two_pow_pos _)
  have hq : 1 ≤ m * 2 ^ e.toNat / 2 ^ (-e).toNat :=
    (Nat.one_le_div_iff (Nat.two_pow_pos _)).mpr (hden.trans (hmant.trans hnum))
  unfold floor
  rw [negative_of_unpack hx]
  simp only [Binary.quotient, hxm, hxe, Bool.false_eq_true, if_false]
  exact_mod_cast hq

end Floats

end AgentScript.Number

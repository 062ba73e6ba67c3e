import AgentScript.Proofs.Number.Order

/-! All numbers but not-a-number stand in one line. Not-a-number is neither less nor more than
anything, and whatever is computed from it is not-a-number again. -/
namespace AgentScript.Number

open Float.Model Float.Model.UnpackedFloat

/-- Where a number stands among all numbers: by its sign, then by exponent and mantissa. -/
def rankOf : UnpackedFloat → ℤ ×ₗ ℤ ×ₗ ℤ
  | .infinity .negative => toLex (-2, toLex (0, 0))
  | .finite .negative m e _ => toLex (-1, toLex (-e, -m))
  | .notANumber | .zero _ => toLex (0, toLex (0, 0))
  | .finite .positive m e _ => toLex (1, toLex (e, m))
  | .infinity .positive => toLex (2, toLex (0, 0))

theorem compare_eq_lt (a b : UnpackedFloat) : a.compare b = some .lt ↔
    a.isNaN = false ∧ b.isNaN = false ∧ rankOf a < rankOf b := by
  rcases a with s | _ | s | ⟨s, m, e, hm⟩ <;> rcases b with s' | _ | s' | ⟨s', m', e', hm'⟩ <;>
    try cases s <;> try cases s'
  case finite.finite.negative.negative =>
    have hswap : ((compare e e').then (compare m m')).swap = .lt ↔ e' < e ∨ e = e' ∧ m' < m := by
      rw [lex_swap, lex_eq_lt, eq_comm (a := e')]
    simpa [UnpackedFloat.compare, UnpackedFloat.isNaN, rankOf, Prod.Lex.toLex_lt_toLex] using hswap
  case finite.finite.positive.positive =>
    simp [UnpackedFloat.compare, UnpackedFloat.isNaN, rankOf, Prod.Lex.toLex_lt_toLex, lex_eq_lt]
  case infinity.infinity.negative.positive => exact iff_of_true rfl ⟨rfl, rfl, by decide⟩
  all_goals
    simp [UnpackedFloat.compare, UnpackedFloat.isNaN, rankOf, Prod.Lex.toLex_lt_toLex]

theorem compare_eq_none (a b : UnpackedFloat) :
    a.compare b = none ↔ a.isNaN = true ∨ b.isNaN = true := by
  rcases a with s | _ | s | ⟨s, m, e, hm⟩ <;> rcases b with s' | _ | s' | ⟨s', m', e', hm'⟩ <;>
    try cases s <;> try cases s'
  all_goals simp [UnpackedFloat.compare, UnpackedFloat.isNaN]

variable {x y z : Float}

def rank (x : Float) : ℤ ×ₗ ℤ ×ₗ ℤ := rankOf x.toModel.unpack

theorem lt_iff_rank : x < y ↔ x.isNaN = false ∧ y.isNaN = false ∧ rank x < rank y :=
  lt_iff.trans (compare_eq_lt _ _)

/-- Of two numbers, the first is not more than the second if the second is not less. -/
theorem le_iff_not_lt : x ≤ y ↔ x.isNaN = false ∧ y.isNaN = false ∧ ¬ y < x := by
  have hnone : x.toModel.unpack.compare y.toModel.unpack = none ↔
    x.isNaN = true ∨ y.isNaN = true := compare_eq_none _ _
  rw [le_iff, lt_iff, compare_swap x.toModel.unpack y.toModel.unpack]
  cases hc : x.toModel.unpack.compare y.toModel.unpack with
  | none =>
    obtain h | h := hnone.mp hc
    · simp only [h, Option.any_none, Bool.true_eq_false, false_and, Bool.false_eq_true]
    · simp only [h, Option.any_none, Bool.true_eq_false, false_and, and_false, Bool.false_eq_true]
  | some o =>
    have hx : x.isNaN = false := Bool.eq_false_iff.mpr fun h =>
      Option.some_ne_none o (hc.symm.trans (hnone.mpr (.inl h)))
    have hy : y.isNaN = false := Bool.eq_false_iff.mpr fun h =>
      Option.some_ne_none o (hc.symm.trans (hnone.mpr (.inr h)))
    simp only [hx, hy, true_and]
    cases o <;> decide

theorem lt_trans (hxy : x < y) (hyz : y < z) : x < z := by
  rw [lt_iff_rank] at *
  exact ⟨hxy.1, hyz.2.1, hxy.2.2.trans hyz.2.2⟩

theorem lt_of_lt_of_le (hxy : x < y) (hyz : y ≤ z) : x < z := by
  rw [le_iff_not_lt] at hyz
  rw [lt_iff_rank] at *
  obtain ⟨hy, hz, hnot⟩ := hyz
  exact ⟨hxy.1, hz, hxy.2.2.trans_le (not_lt.mp fun h => hnot ⟨hz, hy, h⟩)⟩

/-- What is not zero or less is more than zero, or not-a-number. -/
theorem not_le_zero_iff : ¬ x ≤ 0 ↔ 0 < x ∨ x.isNaN = true := by
  have hzero : (0 : Float).isNaN = false := by rfl
  rw [le_iff_not_lt]
  constructor
  · intro h
    by_cases hx : x.isNaN = true
    · exact .inr hx
    · exact .inl (not_not.mp fun hlt => h ⟨Bool.eq_false_iff.mpr hx, hzero, hlt⟩)
  · rintro (h | h) ⟨hx, -, hlt⟩
    · exact hlt h
    · exact Bool.noConfusion (hx.symm.trans h)

section NotANumber

theorem unpack_of_isNaN (h : x.isNaN = true) : x.toModel.unpack = .notANumber := by
  change x.toModel.unpack.isNaN = true at h
  cases hx : x.toModel.unpack <;> rw [hx] at h <;> first | rfl | cases h

/-- What is put together from not-a-number is not-a-number. -/
theorem isNaN_of_pack {u : UnpackedFloat} (hu : u = .notANumber)
    (hx : x.toModel.unpack =
      UnpackedFloat.unpack Format.binary64 (UnpackedFloat.pack Format.binary64 u)) :
    x.isNaN = true := by
  have h : x.toModel.unpack = .notANumber := by
    rw [hx, hu]
    exact unpack_packedNaN
  change x.toModel.unpack.isNaN = true
  rw [h]
  rfl

theorem isNaN_add (h : x.isNaN = true ∨ y.isNaN = true) : (x + y).isNaN = true := by
  refine isNaN_of_pack (u := x.toModel.unpack.add Format.binary64 y.toModel.unpack) ?_ rfl
  rcases h with h | h <;> rw [unpack_of_isNaN h]
  · rfl
  · cases x.toModel.unpack <;> rfl

theorem not_isNaN_of_add (h : ¬ (x + y).isNaN = true) : ¬ x.isNaN = true ∧ ¬ y.isNaN = true :=
  ⟨fun hx => h (isNaN_add (.inl hx)), fun hy => h (isNaN_add (.inr hy))⟩

theorem isNaN_sub (h : x.isNaN = true ∨ y.isNaN = true) : (x - y).isNaN = true := by
  refine isNaN_of_pack (u := x.toModel.unpack.sub Format.binary64 y.toModel.unpack) ?_ rfl
  rcases h with h | h <;> rw [unpack_of_isNaN h]
  · rfl
  · cases x.toModel.unpack <;> rfl

theorem isNaN_mul (h : x.isNaN = true ∨ y.isNaN = true) : (x * y).isNaN = true := by
  refine isNaN_of_pack (u := x.toModel.unpack.mul Format.binary64 y.toModel.unpack) ?_ rfl
  rcases h with h | h <;> rw [unpack_of_isNaN h]
  · rfl
  · cases x.toModel.unpack <;> rfl

theorem isNaN_sqrt (h : x.isNaN = true) : x.sqrt.isNaN = true := by
  refine isNaN_of_pack (u := x.toModel.unpack.sqrt Format.binary64) ?_ rfl
  rw [unpack_of_isNaN h]
  rfl

/-- Everything but not-a-number is equal to itself. -/
theorem beq_self (h : x.isNaN = false) : (x == x) = true := by
  rcases lt_or_beq_of_le (le_iff_not_lt.mpr ⟨h, h, lt_irrefl x⟩) with hlt | heq
  · exact absurd hlt (lt_irrefl x)
  · exact heq

end NotANumber

end AgentScript.Number

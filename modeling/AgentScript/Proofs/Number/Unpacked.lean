import AgentScript.Number.Binary
import Mathlib

/-! Numbers taken apart into sign, mantissa and exponent, as they come out of their bits and go
back. The lemmas on the parts of packed numbers are those of Batteries, which no part of Mathlib
brings along. -/
namespace AgentScript.Number

open Float.Model Float.Model.UnpackedFloat

/-- The mantissas and exponents of the numbers that are neither zero nor infinite. Only next to zero
a mantissa has fewer bits than it may have. -/
structure Canonical (m : Nat) (e : Int) : Prop where
  pos : 0 < m
  bound : m < 2 ^ 53
  least : -1074 ≤ e
  full : 2 ^ 52 ≤ m ∨ e = -1074

section Bits

variable {b : BitVec 64} {s : Sign} {m : Nat} {e : Int} {hm : 0 < m}

abbrev exponentField (b : BitVec 64) : Nat := (@unpackExponent Format.binary64 b).toNat

abbrev mantissaField (b : BitVec 64) : Nat := (@unpackMantissa Format.binary64 b).toNat

theorem mantissaField_lt : mantissaField b < 2 ^ 52 := BitVec.isLt _

theorem toNat_one_append (v : BitVec 52) : (1#1 ++ v).toNat = 2 ^ 52 + v.toNat := by
  rw [BitVec.toNat_append, ← Nat.shiftLeft_add_eq_or_of_lt v.isLt]
  rfl

/-- How a number that is neither zero nor infinite comes out of its bits. -/
theorem unpack_finite (h : UnpackedFloat.unpack Format.binary64 b = .finite s m e hm) :
    s = Sign.ofBitVec (@unpackSign Format.binary64 b) ∧ exponentField b < 2047 ∧
      ((exponentField b = 0 ∧ m = mantissaField b ∧ e = -1074) ∨
        (exponentField b ≠ 0 ∧ m = 2 ^ 52 + mantissaField b ∧ e = exponentField b - 1075)) := by
  unfold UnpackedFloat.unpack at h
  dsimp only at h
  split at h
  · split at h <;> cases h
  rename_i hones
  have hlt : exponentField b < 2047 := by
    have hb : exponentField b < 2 ^ 11 := BitVec.isLt _
    have hne : exponentField b ≠ 2047 := fun he => hones (BitVec.eq_of_toNat_eq he)
    omega
  split at h
  · rename_i hzero
    split at h
    · cases h
    · cases h
      refine ⟨rfl, hlt, .inl ⟨congrArg BitVec.toNat hzero, rfl, ?_⟩⟩
      rw [hzero]
      rfl
  · rename_i hzero
    cases h
    exact ⟨rfl, hlt, .inr ⟨fun he => hzero (BitVec.eq_of_toNat_eq he), toNat_one_append _, rfl⟩⟩

theorem canonical_of_unpack (h : UnpackedFloat.unpack Format.binary64 b = .finite s m e hm) :
    Canonical m e := by
  have hb := mantissaField_lt (b := b)
  obtain ⟨-, -, ⟨-, hmant, he⟩ | ⟨hzero, hmant, he⟩⟩ := unpack_finite h
  · exact ⟨hm, by omega, by omega, by omega⟩
  · exact ⟨hm, by omega, by omega, by omega⟩

theorem exponent_le_of_unpack (h : UnpackedFloat.unpack Format.binary64 b = .finite s m e hm) :
    e ≤ 971 := by
  obtain ⟨-, hlt, ⟨-, -, he⟩ | ⟨-, -, he⟩⟩ := unpack_finite h <;> omega

theorem unpack_infinity (s : Sign) :
    UnpackedFloat.unpack Format.binary64 (packedInfinity Format.binary64 s) = .infinity s := by
  unfold UnpackedFloat.unpack packedInfinity
  simp only [unpackExponent_packComponents, unpackMantissa_packComponents,
    unpackSign_packComponents, Sign.ofBitVec_toBitVec, if_true]
  exact if_pos rfl

/-- Mantissas with fewer bits than they may have are stored without an exponent. -/
theorem unpack_small {v : BitVec 52} (hv : v.toNat = m) :
    UnpackedFloat.unpack Format.binary64 (packComponents Format.binary64 s 0#11 v) =
      .finite s m (-1074) hm := by
  have hzero : v ≠ 0#52 := by
    rintro rfl
    exact hm.ne hv
  have hones : 0#11 ≠ -1#11 := by decide
  unfold UnpackedFloat.unpack
  simp only [unpackExponent_packComponents, unpackMantissa_packComponents,
    unpackSign_packComponents, Sign.ofBitVec_toBitVec, hones, hzero, if_true, if_false, dif_neg,
    not_false_eq_true]
  congr 1

theorem unpack_full {f : BitVec 11} {v : BitVec 52} (hf : (f.toNat : Int) = e + 1075)
    (hleast : -1074 ≤ e) (hmost : e ≤ 971) (hv : 2 ^ 52 + v.toNat = m) :
    UnpackedFloat.unpack Format.binary64 (packComponents Format.binary64 s f v) =
      .finite s m e hm := by
  have hzero : f ≠ 0#11 := by
    rintro rfl
    have : (0 : Int) = e + 1075 := hf
    omega
  have hones : f ≠ -1#11 := by
    rintro rfl
    have : (2047 : Int) = e + 1075 := hf
    omega
  unfold UnpackedFloat.unpack
  simp only [unpackExponent_packComponents, unpackMantissa_packComponents,
    unpackSign_packComponents, Sign.ofBitVec_toBitVec, hones, hzero, if_false, finite.injEq,
    true_and]
  refine ⟨(toNat_one_append v).trans hv, ?_⟩
  change (f.toNat : Int) - (1023 + 52) = e
  omega

/-- What goes into bits comes out of them again, unless it is so large that it becomes infinite. -/
theorem unpack_pack (hc : Canonical m e) :
    UnpackedFloat.unpack Format.binary64 (UnpackedFloat.pack Format.binary64 (.finite s m e hm)) =
      if e ≤ 971 then .finite s m e hm else .infinity s := by
  obtain ⟨-, hbound, hleast, hfull⟩ := hc
  have hbias : (e + (Format.binary64.exponentBias : Int) +
      (Format.binary64.mantissaBitsWithoutImplicit : Int)).toNat = (e + 1075).toNat := by
    change (e + 1023 + 52).toNat = _
    congr 1
    omega
  have hlog : m.log2 + 1 = Format.binary64.mantissaBits ↔ 2 ^ 52 ≤ m := by
    change m.log2 + 1 = 53 ↔ _
    have hlt : m.log2 < 53 := (Nat.log2_lt hm.ne').mpr hbound
    rw [← Nat.le_log2 hm.ne']
    omega
  have hinfinite : 2 ^ Format.binary64.exponentBits ≤ (e + 1075).toNat + 1 ↔ ¬ e ≤ 971 := by
    change 2048 ≤ _ ↔ _
    omega
  have hmod (k n : Nat) (h : n < 2 ^ k) : (BitVec.ofNat k n).toNat = n := by
    rw [BitVec.toNat_ofNat]
    exact Nat.mod_eq_of_lt h
  unfold UnpackedFloat.pack
  simp only [hbias, hlog, hinfinite]
  by_cases he : e ≤ 971
  · simp only [he, not_true_eq_false, if_false, if_true]
    by_cases hn : 2 ^ 52 ≤ m
    · rw [if_pos hn]
      refine unpack_full ?_ hleast he ?_
      · rw [hmod 11 _ (by omega)]
        omega
      · rw [BitVec.toNat_ofNat]
        omega
    · obtain rfl := hfull.resolve_left hn
      rw [if_neg hn]
      exact unpack_small (hmod 52 m (by omega))
  · simp only [he, not_false_eq_true, if_true, if_false]
    exact unpack_infinity s

end Bits

section Floats

variable {x : Float} {s : Sign} {m : Nat} {e : Int} {hm : 0 < m}

theorem exponentField_toBits (x : Float) :
    ((x.toBits >>> 52) &&& 0x7FF).toNat = exponentField x.toBits.toBitVec := by
  have hx : exponentField x.toBits.toBitVec = x.toBits.toNat >>> 52 % 2 ^ 11 := by
    rw [exponentField, unpackExponent_def, BitVec.extractLsb'_toNat]
    rfl
  rw [hx, UInt64.toNat_and, UInt64.toNat_shiftRight]
  exact Nat.and_two_pow_sub_one_eq_mod _ 11

theorem mantissaField_toBits (x : Float) :
    (x.toBits &&& 0xFFFFFFFFFFFFF).toNat = mantissaField x.toBits.toBitVec := by
  have hx : mantissaField x.toBits.toBitVec = x.toBits.toNat >>> 0 % 2 ^ 52 := by
    rw [mantissaField, unpackMantissa_def, BitVec.extractLsb'_toNat]
    rfl
  rw [hx, UInt64.toNat_and]
  exact Nat.and_two_pow_sub_one_eq_mod _ 52

/-- The magnitude is what comes out of the bits. -/
theorem magnitude_of_unpack (h : x.toModel.unpack = .finite s m e hm) :
    (magnitude x).mantissa = m ∧ (magnitude x).exponent = e := by
  obtain ⟨-, -, hfields⟩ := unpack_finite (b := x.toBits.toBitVec) h
  unfold magnitude Binary.ofBits
  simp only [exponentField_toBits, mantissaField_toBits]
  rcases hfields with ⟨hzero, hmant, he⟩ | ⟨hzero, hmant, he⟩
  · rw [if_pos hzero]
    exact ⟨hmant.symm, he.symm⟩
  · rw [if_neg hzero]
    exact ⟨hmant.symm, he.symm⟩

theorem negative_of_unpack (h : x.toModel.unpack = .finite .positive m e hm) :
    negative x = false := by
  obtain ⟨hsign, -⟩ := unpack_finite (b := x.toBits.toBitVec) h
  have hbit : @unpackSign Format.binary64 x.toBits.toBitVec = 0#1 := by
    rw [← Sign.toBitVec_ofBitVec (unpackSign _), ← hsign]
    rfl
  have hx : (@unpackSign Format.binary64 x.toBits.toBitVec).toNat =
      x.toBits.toNat >>> 63 % 2 := by
    rw [unpackSign_def, BitVec.extractLsb'_toNat]
    rfl
  rw [hbit] at hx
  refine decide_eq_false fun hn => ?_
  have hone := congrArg UInt64.toNat hn
  rw [UInt64.toNat_shiftRight] at hone
  change x.toBits.toNat >>> 63 = 1 at hone
  rw [hone] at hx
  cases hx

end Floats

end AgentScript.Number

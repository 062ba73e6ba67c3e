import AgentScript.Number.Read
import AgentScript.Number.Text
import AgentScript.Proofs.Number.Shortest
import AgentScript.Proofs.Token.First
import Mathlib.Tactic.IntervalCases

/-! Numerals: the shape of the texts of numbers, and how such texts are read. -/
namespace AgentScript.Number

open Text

/-- Characters that reading a number takes as they are. -/
structure IsPlain (c : Char) : Prop where
  latin : latinDigit c = c
  not_blank : ¬ isBlank c
  ne_underscore : c ≠ '_'

theorem isPlain_of_isDigit {c : Char} (h : isDigit c) : IsPlain c := by
  have h : 48 ≤ c.toNat ∧ c.toNat ≤ 57 := by simpa [isDigit] using h
  refine ⟨?_, by simp [isBlank]; omega, ?_⟩
  · have hf : digitZeros.find? (fun z => z ≤ c.toNat && c.toNat < z + 10) = some 0x30 := by
      rw [digitZeros, List.find?_cons_of_pos]
      simp only [Bool.and_eq_true, decide_eq_true_eq]
      omega
    unfold latinDigit
    rw [hf]
    change Char.ofNat (48 + (c.toNat - 48)) = c
    rw [Nat.add_sub_cancel' h.1, Char.ofNat_toNat]
  · rintro rfl
    exact absurd h (by decide)

theorem isPlain_point : IsPlain '.' := ⟨by decide, by decide, by decide⟩

theorem trim_of_plain {cs : List Char} (h : ∀ c ∈ cs, IsPlain c) : trim cs = cs := by
  have hd : ∀ cs : List Char, (∀ c ∈ cs, IsPlain c) → cs.dropWhile isBlank = cs := by
    intro cs h
    cases cs with
    | nil => rfl
    | cons c cs => rw [List.dropWhile_cons_of_neg (h c (by simp)).not_blank]
  rw [trim, hd cs h, hd cs.reverse (by simpa using h), List.reverse_reverse]

theorem dropUnderscores_of_plain {cs : List Char} (h : ∀ c ∈ cs, IsPlain c)
    (before : Option Char) (hb : before ≠ some '_') : dropUnderscores before cs = some cs := by
  induction cs generalizing before with
  | nil => simp [dropUnderscores, hb]
  | cons c cs ih =>
    have hc := (h c (by simp)).ne_underscore
    have hr := ih (fun d hd => h d (by simp [hd])) (some c) (by simp [hc])
    simp [dropUnderscores, hc, hb, hr]

theorem plainDigits_of_plain {cs : List Char} (h : ∀ c ∈ cs, IsPlain c) :
    plainDigits (String.ofList cs) = some cs := by
  have hm : cs.map latinDigit = cs := by
    rw [List.map_congr_left fun c hc => (h c hc).latin, List.map_id']
  rw [plainDigits, String.toList_ofList, hm, trim_of_plain h,
    dropUnderscores_of_plain h none (by simp)]

theorem splitSign_of_digit {c : Char} (h : isDigit c) (cs : List Char) :
    splitSign (c :: cs) = (false, c :: cs) := by
  unfold splitSign
  split
  · next he =>
    obtain ⟨rfl, -⟩ := List.cons.inj he
    exact absurd h (by decide)
  · next he =>
    obtain ⟨rfl, -⟩ := List.cons.inj he
    exact absurd h (by decide)
  · rfl

/-- The exponent of a numeral: the sign, true for minus, and the digits. -/
structure Power where
  minus : Bool
  digits : List Char
  isDigits : IsDigits digits

namespace Power

def chars (p : Power) : List Char := 'e' :: (if p.minus then '-' else '+') :: p.digits

def value (p : Power) : Int :=
  if p.minus then -(digitsValue p.digits : Int) else digitsValue p.digits

end Power

/-- An unsigned numeral: digits without an idle zero before them, the digits after a point if there
is one, and an exponent or none. -/
structure Numeral where
  whole : List Char
  fraction : List Char
  power : Option Power
  isDigits : IsDigits whole
  leading : whole.head? = some '0' → whole = ['0']
  fractionDigits : ∀ c ∈ fraction, isDigit c

namespace Numeral

def fractionChars (n : Numeral) : List Char := if n.fraction = [] then [] else '.' :: n.fraction

def powerChars (n : Numeral) : List Char := n.power.elim [] Power.chars

def chars (n : Numeral) : List Char := n.whole ++ (n.fractionChars ++ n.powerChars)

def decimal (n : Numeral) : Decimal :=
  ⟨digitsValue (n.whole ++ n.fraction), (n.power.map Power.value).getD 0 - n.fraction.length⟩

/-- What does not go on with a numeral. -/
def Ends (rest : List Char) : Prop :=
  ∀ c ∈ rest.head?, ¬ isDigit c ∧ c ≠ '.' ∧ c ≠ 'e' ∧ c ≠ 'E'

variable {rest : List Char}

theorem ends_nil : Ends [] := fun _ h => nomatch h

theorem powerChars_head (n : Numeral) (hr : Ends rest) :
    ∀ c ∈ (n.powerChars ++ rest).head?, ¬ isDigit c ∧ c ≠ '.' := by
  intro c hc
  unfold powerChars at hc
  cases hp : n.power with
  | none =>
    rw [hp] at hc
    exact ⟨(hr c hc).1, (hr c hc).2.1⟩
  | some p =>
    rw [hp] at hc
    obtain rfl : 'e' = c := Option.some.inj hc
    decide

theorem fractionChars_head (n : Numeral) (hr : Ends rest) :
    ∀ c ∈ (n.fractionChars ++ (n.powerChars ++ rest)).head?, ¬ isDigit c := by
  intro c hc
  unfold fractionChars at hc
  split at hc
  · exact (n.powerChars_head hr c hc).1
  · obtain rfl : '.' = c := Option.some.inj hc
    decide

theorem digits_run {cs : List Char} (h : ∀ c ∈ cs, isDigit c)
    (hr : ∀ c ∈ rest.head?, ¬ isDigit c) :
    (cs ++ rest).takeWhile isDigit = cs ∧ (cs ++ rest).dropWhile isDigit = rest :=
  ⟨Piece.takeWhile_run h hr, Piece.dropWhile_run h hr⟩

def splitFraction : List Char → List Char × List Char
  | '.' :: r => (r.takeWhile isDigit, r.dropWhile isDigit)
  | r => ([], r)

def readPower : List Char → Option Int
  | [] => some 0
  | 'e' :: r => readExponent r
  | 'E' :: r => readExponent r
  | _ => none

theorem readUnsigned_eq (cs : List Char) :
    readUnsigned cs =
      let whole := cs.takeWhile isDigit
      let parts := splitFraction (cs.dropWhile isDigit)
      if whole.isEmpty && parts.1.isEmpty then none
      else (readPower parts.2).map fun e => ⟨digitsValue (whole ++ parts.1), e - parts.1.length⟩ :=
  rfl

theorem splitFraction_chars (n : Numeral) :
    splitFraction (n.fractionChars ++ n.powerChars) = (n.fraction, n.powerChars) := by
  have hp := n.powerChars_head ends_nil
  rw [List.append_nil] at hp
  unfold fractionChars
  split
  · next hf =>
    rw [hf, List.nil_append]
    unfold splitFraction
    split
    · next he => exact absurd rfl (hp '.' (by rw [he]; rfl)).2
    · rfl
  · obtain ⟨ht, hd⟩ := digits_run n.fractionDigits fun c hc => (hp c hc).1
    change (List.takeWhile _ _, List.dropWhile _ _) = _
    rw [List.append_eq, ht, hd]

theorem readPower_chars (n : Numeral) :
    readPower n.powerChars = some ((n.power.map Power.value).getD 0) := by
  unfold powerChars
  cases n.power with
  | none => rfl
  | some p =>
    have hs : splitSign (p.chars.drop 1) = (p.minus, p.digits) := by
      unfold Power.chars
      cases p.minus <;> rfl
    have hd : p.digits.all isDigit := List.all_eq_true.mpr p.isDigits.2
    change readExponent (p.chars.drop 1) = some p.value
    unfold readExponent
    rw [hs]
    simp [hd, p.isDigits.1, Power.value]

theorem readUnsigned_chars (n : Numeral) : readUnsigned n.chars = some n.decimal := by
  obtain ⟨ht, hd⟩ := digits_run n.isDigits.2 (n.fractionChars_head ends_nil)
  rw [List.append_nil] at ht hd
  rw [readUnsigned_eq]
  simp only [chars, ht, hd, n.splitFraction_chars, n.readPower_chars]
  simp [n.isDigits.1, decimal]

end Numeral

def signChars (minus : Bool) : List Char := if minus then ['-'] else []

/-- A number with the sign that was read. -/
def signed (minus : Bool) (x : Float) : Float := if minus then -x else x

namespace Numeral

theorem chars_plain (n : Numeral) : ∀ c ∈ n.chars, IsPlain c := by
  have mark : IsPlain 'e' := ⟨by decide, by decide, by decide⟩
  have sign (minus : Bool) : IsPlain (if minus then '-' else '+') := by
    cases minus <;> exact ⟨by decide, by decide, by decide⟩
  intro c hc
  rcases List.mem_append.mp hc with hc | hc
  · exact isPlain_of_isDigit (n.isDigits.2 c hc)
  rcases List.mem_append.mp hc with hc | hc
  · unfold fractionChars at hc
    split at hc
    · cases hc
    · rcases List.mem_cons.mp hc with rfl | hc
      · exact isPlain_point
      · exact isPlain_of_isDigit (n.fractionDigits c hc)
  · unfold powerChars at hc
    cases hp : n.power with
    | none =>
      rw [hp] at hc
      cases hc
    | some p =>
      rw [hp] at hc
      rcases List.mem_cons.mp hc with rfl | hc
      · exact mark
      rcases List.mem_cons.mp hc with rfl | hc
      · exact sign p.minus
      · exact isPlain_of_isDigit (p.isDigits.2 c hc)

/-- A numeral begins with a digit. -/
theorem exists_chars (n : Numeral) : ∃ c r, n.chars = c :: r ∧ isDigit c := by
  obtain ⟨c, r, hc⟩ := List.exists_cons_of_ne_nil n.isDigits.1
  exact ⟨c, _, by rw [chars, hc]; rfl, n.isDigits.2 c (by simp [hc])⟩

theorem readFloat?_chars (minus : Bool) (n : Numeral) :
    readFloat? (String.ofList (signChars minus ++ n.chars)) =
      some (signed minus (nearest n.decimal)) := by
  have hplain : ∀ c ∈ signChars minus ++ n.chars, IsPlain c := by
    intro c hc
    rcases List.mem_append.mp hc with hc | hc
    · cases minus with
      | false => cases hc
      | true =>
        rw [List.mem_singleton.mp hc]
        exact ⟨by decide, by decide, by decide⟩
    · exact n.chars_plain c hc
  have hsign : splitSign (signChars minus ++ n.chars) = (minus, n.chars) := by
    obtain ⟨c, r, hc, hd⟩ := n.exists_chars
    cases minus with
    | false =>
      rw [hc]
      exact splitSign_of_digit hd r
    | true => rfl
  rw [readFloat?, plainDigits_of_plain hplain]
  simp only [Option.bind_eq_bind, Option.bind_some, hsign, n.readUnsigned_chars]
  rfl

end Numeral

/-! ## Written numbers -/

theorem isDigit_of_mem_toDigits {n : Nat} {c : Char} (h : c ∈ Nat.toDigits 10 n) : isDigit c := by
  have hd := Nat.isDigit_of_mem_toDigits (by decide) (by decide) h
  simp only [Char.isDigit, Bool.and_eq_true, decide_eq_true_eq] at hd
  simp only [isDigit, Bool.and_eq_true, decide_eq_true_eq]
  exact hd

theorem isDigits_toDigits (n : Nat) : IsDigits (Nat.toDigits 10 n) :=
  ⟨Nat.toDigits_ne_nil, fun _ => isDigit_of_mem_toDigits⟩

theorem digitsValue_toDigits (n : Nat) : digitsValue (Nat.toDigits 10 n) = n :=
  Nat.ofDigitChars_ten_toDigits

theorem digitChar_ne_zero {n : Nat} (h : 0 < n) (hn : n < 10) : n.digitChar ≠ '0' := by
  interval_cases n <;> decide

/-- No idle zero stands before the digits of a positive number. -/
theorem head_toDigits {n : Nat} (h : 0 < n) : (Nat.toDigits 10 n).head? ≠ some '0' := by
  induction n using Nat.strong_induction_on with
  | _ n ih =>
    rw [Nat.toDigits_eq_if (by decide)]
    split
    · next hn =>
      intro he
      exact digitChar_ne_zero h hn (Option.some.inj he)
    · next hn =>
      have ih := ih (n / 10) (by omega) (by omega)
      rwa [List.head?_append_of_ne_nil _ Nat.toDigits_ne_nil]

def Numeral.ofNat (n : Nat) : Numeral where
  whole := Nat.toDigits 10 n
  fraction := []
  power := none
  isDigits := isDigits_toDigits n
  leading h := by
    have h0 : n = 0 := Nat.eq_zero_of_not_pos fun hn => head_toDigits hn h
    rw [h0]
    rfl
  fractionDigits := nofun

def Numeral.IsReal (n : Numeral) : Prop := n.fraction ≠ [] ∨ n.power.isSome

def exponentPower (e : Int) : Power where
  minus := e < 0
  digits :=
    if (Nat.toDigits 10 e.natAbs).length < 2 then '0' :: Nat.toDigits 10 e.natAbs
    else Nat.toDigits 10 e.natAbs
  isDigits := by
    have h := isDigits_toDigits e.natAbs
    split
    · exact ⟨by simp, List.forall_mem_cons.mpr ⟨by decide, h.2⟩⟩
    · exact h

theorem exponentText_toList (e : Int) : (exponentText e).toList = (exponentPower e).chars := by
  simp only [exponentText, Nat.toString_eq_ofList_toDigits, exponentPower, Power.chars]
  split <;> split <;> simp_all

theorem zeros_toList (n : Nat) : (zeros n).toList = List.replicate n '0' := by
  rw [zeros, String.toList_ofList]

theorem isDigit_of_mem_zeros {n : Nat} {c : Char} (h : c ∈ List.replicate n '0') : isDigit c := by
  rw [List.eq_of_mem_replicate h]
  decide

/-- A layout writes a numeral that is no integer. -/
theorem exists_write (layout : Layout) {ds : List Char} (h : IsDigits ds)
    (hz : ds.head? ≠ some '0') (point : Int) :
    ∃ n : Numeral, n.IsReal ∧ (layout.write ds point).toList = n.chars := by
  obtain ⟨d, more, rfl⟩ := List.exists_cons_of_ne_nil h.1
  have hd : d ≠ '0' := fun he => hz (congrArg some he)
  have hzero : ∀ c ∈ ['0'], isDigit c := by simp [isDigit]
  unfold Layout.write
  dsimp only
  split
  · split
    · next hp =>
      refine ⟨⟨['0'], List.replicate (-point).toNat '0' ++ d :: more, none, ⟨by simp, hzero⟩,
        fun _ => rfl, ?_⟩, .inl (by simp), ?_⟩
      · exact List.forall_mem_append.mpr ⟨fun _ => isDigit_of_mem_zeros, h.2⟩
      · simp [Numeral.chars, Numeral.fractionChars, Numeral.powerChars, zeros_toList]
    split
    · refine ⟨⟨d :: more ++ List.replicate (point - (d :: more).length).toNat '0', ['0'], none,
        ⟨by simp, ?_⟩, fun he => absurd (Option.some.inj he) hd, hzero⟩, .inl (by simp), ?_⟩
      · exact List.forall_mem_append.mpr ⟨h.2, fun _ => isDigit_of_mem_zeros⟩
      · simp [Numeral.chars, Numeral.fractionChars, Numeral.powerChars, zeros_toList]
    · next hp hl =>
      obtain ⟨k, hk⟩ : ∃ k, point.toNat = k + 1 := ⟨point.toNat - 1, by omega⟩
      have hmore : more.drop k ≠ [] := by
        simp only [List.length_cons, Nat.cast_add, Nat.cast_one] at hl
        simp only [ne_eq, List.drop_eq_nil_iff]
        omega
      refine ⟨⟨d :: more.take k, more.drop k, none, ⟨by simp, ?_⟩,
        fun he => absurd (Option.some.inj he) hd, ?_⟩, .inl hmore, ?_⟩
      · exact fun c hc => h.2 c (List.cons_subset_cons d (List.take_subset k more) hc)
      · exact fun c hc => h.2 c (List.mem_cons_of_mem d (List.mem_of_mem_drop hc))
      · simp [Numeral.chars, Numeral.fractionChars, Numeral.powerChars, hk, hmore]
  · refine ⟨⟨[d], more, some (exponentPower (point - 1)), ⟨by simp, ?_⟩,
      fun he => absurd (Option.some.inj he) hd, ?_⟩, .inr rfl, ?_⟩
    · exact List.forall_mem_singleton.mpr (h.2 d (by simp))
    · exact fun c hc => h.2 c (List.mem_cons_of_mem d hc)
    · simp only [Numeral.chars, Numeral.fractionChars, Numeral.powerChars, String.toList_append,
        exponentText_toList, Option.elim]
      by_cases hm : more = [] <;> simp [hm]

/-- The exact text of a finite number is a numeral with a sign. -/
theorem exists_exactText {x : Float} (hn : x.isNaN = false) (hi : x.isInf = false) :
    ∃ n : Numeral, n.IsReal ∧ (exactText x).toList = signChars (negative x) ++ n.chars := by
  have sign (s : String) : ((if negative x then "-" else "") ++ s).toList =
      signChars (negative x) ++ s.toList := by
    cases negative x <;> simp [signChars]
  unfold exactText
  simp only [hn, hi, Bool.false_eq_true, if_false]
  split
  · refine ⟨⟨['0'], ['0'], none, ⟨by simp, by simp [isDigit]⟩, fun _ => rfl, by simp [isDigit]⟩,
      .inl (by simp), ?_⟩
    rw [sign]
    simp [Numeral.chars, Numeral.fractionChars, Numeral.powerChars]
  · next h0 =>
    have hz := head_toDigits (shortest_digits_pos (Nat.pos_of_ne_zero h0))
    obtain ⟨n, hr, ht⟩ := exists_write .exact (isDigits_toDigits _) hz _
    exact ⟨n, hr, by rw [sign, ht]⟩

/-- The exact text of a number reads as the number, if it is one. -/
def ReadsBack (x : Float) : Prop := x.isNaN = false → readFloat? (exactText x) = some x

instance : DecidablePred ReadsBack := fun _ => inferInstanceAs (Decidable (_ → _))

theorem ReadsBack.exists_numeral {x : Float} (h : ReadsBack x) (hn : x.isNaN = false)
    (hi : x.isInf = false) :
    ∃ n : Numeral, n.IsReal ∧ (exactText x).toList = signChars (negative x) ++ n.chars ∧
      signed (negative x) (nearest n.decimal) = x := by
  obtain ⟨n, hr, ht⟩ := exists_exactText hn hi
  refine ⟨n, hr, ht, ?_⟩
  have hx := h hn
  rw [← String.ofList_toList (s := exactText x), ht, n.readFloat?_chars] at hx
  exact Option.some.inj hx

/-! ## Values without a numeral -/

open Float.Model Float.Model.UnpackedFloat

theorem fields_of_isNaN {F : Format} {b : BitVec F.numBits}
    (h : (UnpackedFloat.unpack F b).isNaN) :
    unpackExponent b = (-1#_) ∧ unpackMantissa b ≠ 0#_ := by
  unfold UnpackedFloat.unpack at h
  dsimp only at h
  by_cases he : unpackExponent b = (-1#_)
  · by_cases hm : unpackMantissa b = 0#_
    · rw [if_pos he, if_pos hm] at h
      cases h
    · exact ⟨he, hm⟩
  rw [if_neg he] at h
  by_cases hz : unpackExponent b = 0#_
  · rw [if_pos hz] at h
    by_cases hm : unpackMantissa b = 0#_
    · rw [dif_pos hm] at h
      cases h
    · rw [dif_neg hm] at h
      cases h
  · rw [if_neg hz] at h
    cases h

theorem bits_of_isNaN {x : Float} (h : x.isNaN) :
    x.toModel.toBits.toBitVec = packedNaN Format.binary64 := by
  obtain ⟨he, hm⟩ := fields_of_isNaN (F := Format.binary64) h
  exact x.toModel.valid.eq_packedNaN he hm

/-- There is one not-a-number. -/
theorem eq_of_isNaN {x y : Float} (hx : x.isNaN) (hy : y.isNaN) : x = y := by
  obtain ⟨⟨b, vx⟩⟩ := x
  obtain ⟨⟨b', vy⟩⟩ := y
  have h : b.toBitVec = b'.toBitVec := (bits_of_isNaN hx).trans (bits_of_isNaN hy).symm
  obtain rfl : b = b' := UInt64.toBitVec_inj.mp h
  rfl

theorem isNaN_of_isInf {x : Float} (h : x.isInf) : x.isNaN = false := by
  change x.toModel.unpack.isInf = true at h
  change x.toModel.unpack.isNaN = false
  cases hu : x.toModel.unpack <;> rw [hu] at h <;> first | rfl | cases h

theorem readFloat?_infinity (minus : Bool) :
    readFloat? ((if minus then "-" else "") ++ "inf") = some (signed minus (1.0 / 0.0)) := by
  cases minus <;> decide +kernel

/-- There are two infinities. -/
theorem ReadsBack.eq_infinity {x : Float} (h : ReadsBack x) (hi : x.isInf) :
    x = signed (negative x) (1.0 / 0.0) := by
  have hn := isNaN_of_isInf hi
  have hx := h hn
  unfold exactText at hx
  simp only [hn, hi, Bool.false_eq_true, if_false, if_true, readFloat?_infinity] at hx
  exact (Option.some.inj hx).symm

end AgentScript.Number

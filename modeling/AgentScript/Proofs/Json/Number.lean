import AgentScript.Json.Printer
import AgentScript.Json.Reader
import AgentScript.Proofs.Number.Numeral

/-! Numbers in data: a numeral that was written is read as the number that it writes. -/
namespace AgentScript.Json

open Number Text

variable {rest : List Char}

/-- The digits before a point. A zero at the head stands alone. -/
def wholePart (cs : List Char) : List Char :=
  match cs with
  | '0' :: _ => ['0']
  | _ => cs.takeWhile isDigit

theorem number_eq (start : List Char) (minus : Bool) (cs : List Char) :
    number start minus cs =
      let whole := wholePart cs
      let fraction := fractionPart (cs.drop whole.length)
      let exponent := exponentPart fraction.2
      if whole.isEmpty then .error ⟨.noValue, start⟩
      else if fraction.1.isEmpty && exponent.1.isEmpty then
        if digitLimit < whole.length then .error ⟨.tooManyDigits whole.length, start⟩
        else .ok (.int (if minus then -(digitsValue whole : Int) else digitsValue whole), exponent.2)
      else
        let x := nearest ((readUnsigned (whole ++ fraction.1 ++ exponent.1)).getD ⟨0, 0⟩)
        .ok (.real (signed minus x), exponent.2) :=
  rfl

theorem wholePart_chars (n : Numeral) (hr : Numeral.Ends rest) :
    wholePart (n.chars ++ rest) = n.whole := by
  have hd := (Numeral.digits_run n.isDigits.2 (n.fractionChars_head hr)).1
  rw [Numeral.chars, List.append_assoc, List.append_assoc]
  unfold wholePart
  split
  · next he =>
    obtain ⟨c, r, hc⟩ := List.exists_cons_of_ne_nil n.isDigits.1
    rw [hc] at he
    obtain ⟨rfl, -⟩ := List.cons.inj he
    exact (n.leading (by rw [hc]; rfl)).symm
  · exact hd

theorem exponentPart_chars (n : Numeral) (hr : Numeral.Ends rest) :
    exponentPart (n.powerChars ++ rest) = (n.powerChars, rest) := by
  unfold Numeral.powerChars
  cases n.power with
  | none =>
    cases rest with
    | nil => rfl
    | cons c r =>
      obtain ⟨-, -, he, hE⟩ := hr c rfl
      simp [exponentPart, he, hE]
  | some p =>
    obtain ⟨ht, hd⟩ := Numeral.digits_run p.isDigits.2 fun c hc => (hr c hc).1
    simp [exponentPart, Power.chars, ht, hd, p.isDigits.1]

theorem fractionPart_chars (n : Numeral) (hr : Numeral.Ends rest) :
    fractionPart (n.fractionChars ++ (n.powerChars ++ rest)) =
      (n.fractionChars, n.powerChars ++ rest) := by
  have hp := n.powerChars_head hr
  unfold Numeral.fractionChars
  split
  · rw [List.nil_append]
    unfold fractionPart
    split
    · next he => exact absurd rfl (hp '.' (by rw [he]; rfl)).2
    · rfl
  · next hf =>
    obtain ⟨d, more, hm⟩ := List.exists_cons_of_ne_nil hf
    have hd := List.forall_mem_cons.mp (hm ▸ n.fractionDigits)
    obtain ⟨ht, hdrop⟩ := Numeral.digits_run hd.2 fun c hc => (hp c hc).1
    simp [fractionPart, hm, hd.1, ht, hdrop]

/-- A numeral is read up to what does not go on with it. -/
theorem number_chars (start : List Char) (minus : Bool) (n : Numeral) (hr : Numeral.Ends rest) :
    number start minus (n.chars ++ rest) =
      if n.fractionChars.isEmpty && n.powerChars.isEmpty then
        if digitLimit < n.whole.length then .error ⟨.tooManyDigits n.whole.length, start⟩
        else .ok (.int (if minus then -(digitsValue n.whole : Int) else digitsValue n.whole), rest)
      else .ok (.real (signed minus (nearest n.decimal)), rest) := by
  have hdrop : (n.chars ++ rest).drop n.whole.length =
      n.fractionChars ++ (n.powerChars ++ rest) := by
    rw [Numeral.chars, List.append_assoc, List.drop_left, List.append_assoc]
  have hwhole : n.whole.isEmpty = false := List.isEmpty_eq_false_iff.mpr n.isDigits.1
  have hread : readUnsigned (n.whole ++ n.fractionChars ++ n.powerChars) = some n.decimal := by
    rw [List.append_assoc]
    exact n.readUnsigned_chars
  rw [number_eq]
  simp only [wholePart_chars n hr, hdrop, fractionPart_chars n hr, exponentPart_chars n hr, hwhole,
    hread, Bool.false_eq_true, if_false, Option.getD_some]

theorem number_real (start : List Char) (minus : Bool) {n : Numeral} (hn : n.IsReal)
    (hr : Numeral.Ends rest) :
    number start minus (n.chars ++ rest) =
      .ok (.real (signed minus (nearest n.decimal)), rest) := by
  rw [number_chars start minus n hr, if_neg]
  rcases hn with hf | hp
  · simp [Numeral.fractionChars, hf]
  · obtain ⟨p, hp⟩ := Option.isSome_iff_exists.mp hp
    simp [Numeral.powerChars, hp, Power.chars]

theorem number_nat (start : List Char) (minus : Bool) {k : Nat}
    (hk : digitCount k ≤ digitLimit) (hr : Numeral.Ends rest) :
    number start minus ((Numeral.ofNat k).chars ++ rest) =
      .ok (.int (if minus then -(k : Int) else k), rest) := by
  have hwhole : ((Numeral.ofNat k).fractionChars.isEmpty && (Numeral.ofNat k).powerChars.isEmpty) =
      true := rfl
  have hlength : ¬ digitLimit < (Numeral.ofNat k).whole.length := Nat.not_lt.mpr hk
  rw [number_chars start minus _ hr, if_pos hwhole, if_neg hlength]
  simp only [Numeral.ofNat, digitsValue_toDigits]

end AgentScript.Json

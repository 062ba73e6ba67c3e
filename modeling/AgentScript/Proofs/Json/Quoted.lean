import AgentScript.Json.Printer
import AgentScript.Json.Reader
import Mathlib.Tactic.IntervalCases
import Mathlib.Tactic.SplitIfs

/-! Strings as data: what was escaped is read back, and no carriage return is written. -/
namespace AgentScript.Json

open Text

variable {rest : List Char}

theorem hexFour?_append {cs ds : List Char} {n : Nat} (h : hexFour? cs = some (n, ds)) :
    hexFour? (cs ++ rest) = some (n, ds ++ rest) := by
  unfold hexFour? at h
  split at h
  · next a b c d r =>
    simp only [hexFour?, List.cons_append]
    simp only [Option.bind_eq_bind, Option.bind_eq_some_iff] at h ⊢
    obtain ⟨a', ha, b', hb, c', hc, d', hd, he⟩ := h
    cases he
    exact ⟨a', ha, b', hb, c', hc, d', hd, rfl⟩
  · cases h

theorem hexFour?_hex {n : Nat} (h : n < 32) : hexFour? (hex 4 n) = some (n, []) := by
  interval_cases n <;> rfl

theorem secondHalf_low {high : Nat} (h : high < 32) (cs : List Char) :
    secondHalf high cs = .ok none := by
  simp [secondHalf, show ¬ 0xD800 ≤ high by omega]

theorem stringBody_control (opening : List Char) {c : Char} (h : c.toNat < 32) (fuel : Nat)
    (d : Char) (more out : List Char) :
    stringBody opening (fuel + 1) (backslash :: 'u' :: hex 4 c.toNat ++ d :: more) out =
      stringBody opening fuel (d :: more) (c :: out) := by
  have hx : hexFour? (hex 4 c.toNat ++ d :: more) = some (c.toNat, d :: more) :=
    hexFour?_append (hexFour?_hex h)
  rw [List.cons_append, List.cons_append, stringBody, if_neg (by decide), if_neg (by decide),
    if_neg (by decide)]
  simp only [hx, secondHalf_low h, Char.ofNat_toNat]

theorem stringBody_simple (opening : List Char) {c e : Char} (h : simpleEscape? e = some c)
    (fuel : Nat) (more out : List Char) :
    stringBody opening (fuel + 1) (backslash :: e :: more) out =
      stringBody opening fuel more (c :: out) := by
  have hu : e ≠ 'u' := by
    rintro rfl
    have hnone : simpleEscape? 'u' = none := by decide
    rw [hnone] at h
    cases h
  rw [stringBody, if_neg (by decide), if_neg (by decide), if_neg (by decide), h]
  exact hu

/-- An escaped character is read as the character. -/
theorem stringBody_escapeChar (opening : List Char) (c : Char) (fuel : Nat) (d : Char)
    (more out : List Char) :
    stringBody opening (fuel + 1) (escapeChar c ++ d :: more) out =
      stringBody opening fuel (d :: more) (c :: out) := by
  unfold escapeChar
  split_ifs with hq hb hn hr ht hback hform hc
  · exact stringBody_simple opening (by rw [hq]; decide) fuel _ out
  · exact stringBody_simple opening (by rw [hb]; decide) fuel _ out
  · exact stringBody_simple opening (by rw [hn]; decide) fuel _ out
  · exact stringBody_simple opening (by rw [hr]; decide) fuel _ out
  · exact stringBody_simple opening (by rw [ht]; decide) fuel _ out
  · exact stringBody_simple opening (by rw [hback]; decide) fuel _ out
  · exact stringBody_simple opening (by rw [hform]; decide) fuel _ out
  · exact stringBody_control opening hc fuel d more out
  · rw [List.singleton_append, stringBody.eq_def]
    exact (if_neg hq).trans ((if_neg hc).trans (if_pos hb))

theorem stringBody_flatMap (opening : List Char) (cs : List Char) (fuel : Nat) (out : List Char)
    (hf : cs.length < fuel) :
    stringBody opening fuel (cs.flatMap escapeChar ++ quoteMark :: rest) out =
      .ok (out.reverse ++ cs, rest) := by
  induction cs generalizing fuel out with
  | nil =>
    obtain ⟨fuel, rfl⟩ : ∃ k, fuel = k + 1 := ⟨fuel - 1, by omega⟩
    simp [stringBody]
  | cons c cs ih =>
    obtain ⟨fuel, rfl⟩ : ∃ k, fuel = k + 1 := ⟨fuel - 1, by omega⟩
    obtain ⟨d, more, hd⟩ : ∃ d more, cs.flatMap escapeChar ++ quoteMark :: rest = d :: more :=
      List.exists_cons_of_ne_nil (by simp)
    rw [List.flatMap_cons, List.append_assoc, hd, stringBody_escapeChar, ← hd,
      ih fuel (c :: out) (by simpa using hf), List.reverse_cons, List.append_assoc,
      List.singleton_append]

theorem escapeChar_ne_nil (c : Char) : escapeChar c ≠ [] := by
  unfold escapeChar
  split_ifs <;> simp

theorem length_le_flatMap (cs : List Char) : cs.length ≤ (cs.flatMap escapeChar).length := by
  induction cs with
  | nil => exact Nat.le_refl 0
  | cons c cs ih =>
    have := List.length_pos_iff.mpr (escapeChar_ne_nil c)
    simp only [List.flatMap_cons, List.length_append, List.length_cons]
    omega

def stringRest (s : String) (rest : List Char) : List Char :=
  s.toList.flatMap escapeChar ++ quoteMark :: rest

theorem stringChars_append (s : String) (rest : List Char) :
    stringChars s ++ rest = quoteMark :: stringRest s rest := by
  simp [stringChars, stringRest]

/-- A string is read up to its closing mark. -/
theorem stringBody_stringRest (opening : List Char) (s : String) (rest : List Char) :
    stringBody opening (stringRest s rest).length (stringRest s rest) [] =
      .ok (s.toList, rest) := by
  have := length_le_flatMap s.toList
  refine stringBody_flatMap opening s.toList _ [] ?_
  rw [stringRest, List.length_append, List.length_cons]
  omega

theorem return_notMem_escapeChar (c : Char) : '\r' ∉ escapeChar c := by
  unfold escapeChar
  split_ifs with hq hb hn hr ht hback hform hc
  · decide
  · decide
  · decide
  · decide
  · decide
  · decide
  · decide
  · have hhex : '\r' ∉ hex 4 c.toNat := by
      generalize c.toNat = n at hc
      interval_cases n <;> decide
    exact fun hm => hhex (by simpa [backslash] using hm)
  · exact fun hm => hr (List.mem_singleton.mp hm).symm

theorem return_notMem_stringChars (s : String) : '\r' ∉ stringChars s := by
  intro hm
  have hs : '\r' ∈ s.toList.flatMap escapeChar := by
    simpa [stringChars, quoteMark] using hm
  obtain ⟨c, -, hc⟩ := List.mem_flatMap.mp hs
  exact return_notMem_escapeChar c hc

end AgentScript.Json

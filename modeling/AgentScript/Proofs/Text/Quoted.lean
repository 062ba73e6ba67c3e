import AgentScript.Text.Classes
import AgentScript.Text.Quoted
import Mathlib.Algebra.Group.Nat.Defs
import Mathlib.Tactic.SplitIfs

/-! Quoted texts: what was escaped can be read back, and all of it can be shown on one line. -/
namespace AgentScript.Text

/-! ## Digits in base sixteen -/

def hexValue (cs : List Char) : Nat := cs.foldl (fun n c => 16 * n + (hexDigit? c).getD 0) 0

theorem hexDigit?_digitChar : ∀ d < 16, hexDigit? d.digitChar = some d := by decide

theorem hexValue_append_digit (cs : List Char) {d : Nat} (h : d < 16) :
    hexValue (cs ++ [d.digitChar]) = 16 * hexValue cs + d := by
  rw [hexValue, List.foldl_append]
  simp only [List.foldl_cons, List.foldl_nil, hexDigit?_digitChar d h, Option.getD_some]
  rfl

theorem hexValue_toDigits (n : Nat) : hexValue (Nat.toDigits 16 n) = n := by
  induction n using Nat.strongRecOn with
  | ind n ih =>
    rw [Nat.toDigits_eq_if (by decide)]
    split
    · next h => simpa [hexValue] using hexValue_append_digit [] h
    · rw [hexValue_append_digit _ (Nat.mod_lt n (by decide)), ih (n / 16) (by omega)]
      exact Nat.div_add_mod n 16

theorem hexValue_zeros (k : Nat) (cs : List Char) :
    hexValue (List.replicate k '0' ++ cs) = hexValue cs := by
  induction k with
  | zero => rfl
  | succ k ih =>
    rw [← ih, List.replicate_succ, List.cons_append]
    rfl

theorem hexValue_hex (width n : Nat) : hexValue (hex width n) = n :=
  (hexValue_zeros _ _).trans (hexValue_toDigits n)

theorem length_hex {width n : Nat} (hw : 0 < width) (h : n < 16 ^ width) :
    (hex width n).length = width := by
  have hle := (Nat.length_toDigits_le_iff (by decide) hw).mpr h
  simp only [hex, List.length_append, List.length_replicate]
  omega

theorem exists_digit {n : Nat} {c : Char} (h : c ∈ Nat.toDigits 16 n) :
    ∃ d < 16, c = d.digitChar := by
  induction n using Nat.strongRecOn with
  | ind n ih =>
    rw [Nat.toDigits_eq_if (by decide)] at h
    split at h
    · next hn => exact ⟨n, hn, List.mem_singleton.mp h⟩
    · rcases List.mem_append.mp h with h | h
      · exact ih (n / 16) (by omega) h
      · exact ⟨n % 16, Nat.mod_lt n (by decide), List.mem_singleton.mp h⟩

/-! ## Reading back -/

def readHex (width : Nat) (cs : List Char) : Char × List Char :=
  (Char.ofNat (hexValue (cs.take width)), cs.drop width)

theorem readHex_append {width : Nat} {c : Char} (hw : 0 < width) (h : c.toNat < 16 ^ width)
    (rest : List Char) : readHex width (hex width c.toNat ++ rest) = (c, rest) := by
  have hl := length_hex hw h
  rw [readHex, List.take_left' hl, List.drop_left' hl, hexValue_hex, Char.ofNat_toNat]

/-- The first character of an escaped text, and what follows it. -/
def unescape : List Char → Option (Char × List Char)
  | [] => none
  | c :: rest =>
    if c ≠ backslash then some (c, rest)
    else
      match rest with
      | [] => none
      | 'n' :: rest => some ('\n', rest)
      | 'r' :: rest => some ('\r', rest)
      | 't' :: rest => some ('\t', rest)
      | 'x' :: rest => some (readHex 2 rest)
      | 'u' :: rest => some (readHex 4 rest)
      | 'U' :: rest => some (readHex 8 rest)
      | c :: rest => some (c, rest)

def IsMark (mark : Char) : Prop := mark = apostrophe ∨ mark = quoteMark

theorem isMark_markFor (cs : List Char) : IsMark (markFor cs) := by
  unfold markFor
  split
  · exact .inr rfl
  · exact .inl rfl

variable {mark : Char}

theorem unescape_escape (hm : IsMark mark) (c : Char) (rest : List Char) :
    unescape (escape mark c ++ rest) = some (c, rest) := by
  unfold escape
  split_ifs with hc hn hr ht hp hx hu
  · rw [Bool.or_eq_true, decide_eq_true_eq, decide_eq_true_eq] at hc
    rcases hc with rfl | rfl
    · rcases hm with rfl | rfl <;> rfl
    · rfl
  · rw [hn]
    rfl
  · rw [hr]
    rfl
  · rw [ht]
    rfl
  · have hb : c ≠ backslash := fun h => hc (by simp [h])
    exact if_pos hb
  · exact congrArg some (readHex_append (by decide) hx rest)
  · exact congrArg some (readHex_append (by decide) hu rest)
  · exact congrArg some (readHex_append (by decide) c.val.toNat_lt rest)

/-- A text can be told from the row of its escaped characters. -/
theorem flatMap_escape_inj (hm : IsMark mark) {cs ds : List Char}
    (h : cs.flatMap (escape mark) = ds.flatMap (escape mark)) : cs = ds := by
  have hnil (c : Char) (cs : List Char) : (c :: cs).flatMap (escape mark) ≠ [] := by
    intro hn
    have hread := unescape_escape hm c (cs.flatMap (escape mark))
    rw [← List.flatMap_cons, hn] at hread
    cases hread
  induction cs generalizing ds with
  | nil =>
    cases ds with
    | nil => rfl
    | cons d ds => exact absurd h.symm (hnil d ds)
  | cons c cs ih =>
    cases ds with
    | nil => exact absurd h (hnil c cs)
    | cons d ds =>
      have hread := unescape_escape hm c (cs.flatMap (escape mark))
      rw [← List.flatMap_cons, h, List.flatMap_cons, unescape_escape hm] at hread
      obtain ⟨rfl, hrest⟩ := Prod.mk.inj (Option.some.inj hread)
      rw [ih hrest.symm]

/-- A text can be told from how it is quoted. -/
theorem quotedChars_inj {cs ds : List Char} (h : quotedChars cs = quotedChars ds) : cs = ds := by
  unfold quotedChars at h
  dsimp only at h
  rw [List.cons_append, List.cons_append] at h
  obtain ⟨hmark, hrest⟩ := List.cons.inj h
  rw [← hmark] at hrest
  exact flatMap_escape_inj (isMark_markFor cs) (List.append_cancel_right hrest)

theorem quoted_inj {s t : String} (h : quoted s = quoted t) : s = t :=
  String.toList_inj.mp (quotedChars_inj (String.ofList_injective h))

/-! ## What can be shown -/

/-- The characters at which readers of texts may begin a new line. -/
def lineBreaks : List Char :=
  ['\n', '\r', '\x0b', '\x0c', '\x1c', '\x1d', '\x1e', '\x85', '\u2028', '\u2029']

/-- What can be shown does not break a line. -/
theorem notMem_lineBreaks {c : Char} (h : isPrintable c = true) : c ∉ lineBreaks := by
  have hall : lineBreaks.all (! isPrintable ·) = true := by decide +kernel
  intro hc
  have hnot := List.all_eq_true.mp hall c hc
  rw [h] at hnot
  cases hnot

theorem isPrintable_of_digit : ∀ d < 16, isPrintable d.digitChar = true := by decide +kernel

theorem isPrintable_hex (width n : Nat) : ∀ c ∈ hex width n, isPrintable c = true := by
  intro c hc
  rcases List.mem_append.mp hc with hc | hc
  · rw [(List.mem_replicate.mp hc).2]
    exact isPrintable_of_digit 0 (by decide)
  · obtain ⟨d, hd, rfl⟩ := exists_digit hc
    exact isPrintable_of_digit d hd

theorem isPrintable_mark (hm : IsMark mark) : isPrintable mark = true := by
  rcases hm with rfl | rfl <;> decide +kernel

/-- An escape can be shown, whatever character it stands for. -/
theorem isPrintable_escape (hm : IsMark mark) (c : Char) :
    ∀ d ∈ escape mark c, isPrintable d = true := by
  have hslash : isPrintable backslash = true := by decide +kernel
  have letter {e : Char} (he : isPrintable e = true) (rest : List Char)
      (hrest : ∀ d ∈ rest, isPrintable d = true) :
      ∀ d ∈ backslash :: e :: rest, isPrintable d = true :=
    List.forall_mem_cons.mpr ⟨hslash, List.forall_mem_cons.mpr ⟨he, hrest⟩⟩
  have nothing : ∀ d ∈ ([] : List Char), isPrintable d = true := fun _ hd => nomatch hd
  unfold escape
  split_ifs with hc hn hr ht hp
  · rw [Bool.or_eq_true, decide_eq_true_eq, decide_eq_true_eq] at hc
    rcases hc with rfl | rfl
    · exact letter (isPrintable_mark hm) [] nothing
    · exact letter hslash [] nothing
  · exact letter (by decide +kernel) [] nothing
  · exact letter (by decide +kernel) [] nothing
  · exact letter (by decide +kernel) [] nothing
  · intro d hd
    rwa [List.mem_singleton.mp hd]
  · exact letter (by decide +kernel) _ (isPrintable_hex 2 c.toNat)
  · exact letter (by decide +kernel) _ (isPrintable_hex 4 c.toNat)
  · exact letter (by decide +kernel) _ (isPrintable_hex 8 c.toNat)

theorem isPrintable_quoted (s : String) : ∀ c ∈ (quoted s).toList, isPrintable c = true := by
  intro c hc
  rw [quoted, String.toList_ofList, quotedChars] at hc
  have hm := isMark_markFor s.toList
  rcases List.mem_append.mp hc with hc | hc
  · rcases List.mem_cons.mp hc with rfl | hc
    · exact isPrintable_mark hm
    · obtain ⟨d, -, hd⟩ := List.mem_flatMap.mp hc
      exact isPrintable_escape hm d c hd
  · rw [List.mem_singleton.mp hc]
    exact isPrintable_mark hm

end AgentScript.Text

import AgentScript.Proofs.Token.Lexeme
import Mathlib.Data.List.TakeWhile
import Mathlib.Data.List.Infix

/-! The first piece of a text: it is cut as it should be, and no other piece is. -/
namespace AgentScript.Piece

open Text

/-! Runs of characters of a class. -/

theorem head_dropWhile_not {p : Char → Bool} {cs : List Char} :
    ∀ c ∈ (cs.dropWhile p).head?, ¬ p c := by
  intro c hc
  have h := List.head?_dropWhile_not p cs
  rw [hc] at h
  simpa using h

theorem takeWhile_run {p : Char → Bool} {cs rest : List Char} (h : ∀ c ∈ cs, p c)
    (hr : ∀ c ∈ rest.head?, ¬ p c) : (cs ++ rest).takeWhile p = cs := by
  rw [List.takeWhile_append_of_pos h]
  cases rest with
  | nil => simp
  | cons d r => rw [List.takeWhile_cons_of_neg (hr d rfl), List.append_nil]

theorem dropWhile_run {p : Char → Bool} {cs rest : List Char} (h : ∀ c ∈ cs, p c)
    (hr : ∀ c ∈ rest.head?, ¬ p c) : (cs ++ rest).dropWhile p = rest := by
  rw [List.dropWhile_append_of_pos h]
  cases rest with
  | nil => rfl
  | cons d r => rw [List.dropWhile_cons_of_neg (hr d rfl)]

theorem length_le_takeWhile {p : Char → Bool} {cs text : List Char} (h : ∀ c ∈ cs, p c)
    (ht : cs <+: text) : cs.length ≤ (text.takeWhile p).length := by
  obtain ⟨rest, rfl⟩ := ht
  rw [List.takeWhile_append_of_pos h, List.length_append]
  omega

/-! Which branch a character takes. -/

/-- A class without blanks, newline and hash: its characters take none of the first branches. -/
theorem plain_of_class {p : Char → Bool} (hp : [' ', '\t', '\r', '\n', '#'].any p = false)
    {c : Char} (h : p c) : ¬ isGap c ∧ c ≠ '\n' ∧ c ≠ '#' := by
  have hc : c ∉ [' ', '\t', '\r', '\n', '#'] := by
    intro hm
    rw [List.any_eq_true.mpr ⟨c, hm, h⟩] at hp
    cases hp
  simp only [List.mem_cons, List.not_mem_nil, not_or, or_false] at hc
  obtain ⟨hs, ht, hr, hn, hh⟩ := hc
  have hg : ¬ isGap c := by simp [isGap, hs, ht, hr]
  exact ⟨hg, hn, hh⟩

theorem first_word {c : Char} (h : isWordStart c) (cs : List Char) : first c cs = word c cs := by
  obtain ⟨hg, hn, hh⟩ := plain_of_class rfl h
  simp [first, hg, hn, hh, h]

theorem first_number {c : Char} (h : isDigit c) (cs : List Char) : first c cs = number c cs := by
  obtain ⟨hg, hn, hh⟩ := plain_of_class rfl h
  have hw : ¬ isWordStart c := by
    simp only [isDigit, isWordStart, isLetter, Bool.and_eq_true, Bool.or_eq_true,
      decide_eq_true_eq] at h ⊢
    rintro (hl | rfl)
    · have h1 : '9'.toNat = 57 := rfl
      have h2 : 'a'.toNat = 97 := rfl
      have h3 : 'A'.toNat = 65 := rfl
      omega
    · revert h; decide
  simp [first, hg, hn, hh, hw, h]

theorem first_string (cs : List Char) : first quoteMark cs = string cs := rfl

theorem pair?_eq_some {c d : Char} {s : Symbol} :
    Symbol.pair? c d = some s ↔ s.spelling.toList = [c, d] := by
  constructor
  · intro h
    simpa using List.find?_some h
  · intro h
    cases s <;> simp [Symbol.spelling] at h <;> obtain ⟨rfl, rfl⟩ := h <;> decide

theorem single?_eq_some {c : Char} {s : Symbol} :
    Symbol.single? c = some s ↔ s.spelling.toList = [c] := by
  constructor
  · intro h
    simpa using List.find?_some h
  · intro h
    cases s <;> simp [Symbol.spelling] at h <;> subst h <;> decide

theorem length_spelling (s : Symbol) :
    s.spelling.toList.length = 1 ∨ s.spelling.toList.length = 2 := by
  cases s <;> decide

theorem first_spelling {s : Symbol} {c : Char} {r : List Char} (h : s.spelling.toList = c :: r)
    (cs : List Char) : first c cs = symbol c cs := by
  cases s <;> simp [Symbol.spelling] at h <;> obtain ⟨rfl, -⟩ := h <;> rfl

theorem first_stray {c : Char} (h : IsStray c) (cs : List Char) : first c cs = symbol c cs := by
  obtain ⟨hg, hn, hh, hw, hd, hq, -⟩ := h
  simp [first, hg, hn, hh, hw, hd, hq]

theorem ofWord?_eq_some {w : List Char} {k : Keyword} :
    Keyword.ofWord? w = some k ↔ w.map Char.toUpper = k.spelling.toList := by
  constructor
  · intro h
    simpa [eq_comm] using List.find?_some h
  · intro h
    rw [Keyword.ofWord?, h]
    cases k <;> decide

theorem isLetter_of_toUpper {c : Char} (h : isLetter c.toUpper) : isLetter c := by
  unfold Char.toUpper at h
  split at h
  · next hc =>
    have h1 : 97 ≤ c.toNat := hc.1
    have h2 : c.toNat ≤ 122 := hc.2
    simp [isLetter, h1, h2]
  · exact h

theorem isLetter_spelling (k : Keyword) : ∀ c ∈ k.spelling.toList, isLetter c := by
  have all : k.spelling.toList.all isLetter = true := by cases k <;> rfl
  exact List.all_eq_true.mp all

/-- A word in capital letters that is a keyword consists of letters. -/
theorem isWord_of_keyword {w : List Char} {k : Keyword}
    (h : w.map Char.toUpper = k.spelling.toList) : IsWord w := by
  have hl : ∀ c ∈ w, isLetter c := by
    intro c hc
    apply isLetter_of_toUpper
    apply isLetter_spelling k
    rw [← h]
    exact List.mem_map_of_mem hc
  cases w with
  | nil => cases k <;> simp [Keyword.spelling] at h
  | cons c r =>
    refine ⟨?_, fun d hd => ?_⟩
    · simp [isWordStart, hl c (by simp)]
    · simp [isWordChar, isWordStart, hl d (by simp [hd])]

theorem number_whole_le (c : Char) (cs : List Char) :
    (cs.takeWhile isDigit).length < (number c cs).1.chars.length := by
  unfold number
  split
  · split
    · simp only [chars, List.length_append, List.length_cons]
      omega
    · simp [chars]
  · simp [chars]

theorem string_body_le (cs : List Char) :
    (cs.takeWhile inString).length < (string cs).1.chars.length := by
  unfold string
  split
  · split
    · simp only [chars, List.length_append, List.length_cons]
      omega
    · simp [chars]
  · simp [chars]

theorem inString_of_quotable {cs : List Char} (h : IsQuotable cs) : ∀ c ∈ cs, inString c := by
  intro c hc
  simpa [inString] using h c hc

theorem length_le_first_number {c : Char} {r cs : List Char} (hw : IsNumber (c :: r))
    (hp : r <+: cs) : (c :: r).length ≤ (first c cs).1.chars.length := by
  obtain ⟨-, hd⟩ | ⟨whole, fraction, ⟨hw0, hwd⟩, ⟨hf0, hfd⟩, he⟩ := hw
  · rw [first_number (hd c (by simp))]
    have h1 := length_le_takeWhile (p := isDigit) (fun x hx => hd x (by simp [hx])) hp
    have h2 := number_whole_le c cs
    simp only [List.length_cons]
    omega
  · obtain ⟨w, ws, rfl⟩ := List.exists_cons_of_ne_nil hw0
    obtain ⟨f, fs, rfl⟩ := List.exists_cons_of_ne_nil hf0
    obtain ⟨t, rfl⟩ := hp
    rw [List.cons_append, List.cons.injEq] at he
    obtain ⟨rfl, rfl⟩ := he
    have hws : ∀ x ∈ ws, isDigit x := fun x hx => hwd x (by simp [hx])
    have hr : ∀ x ∈ ('.' :: (f :: fs ++ t)).head?, ¬ isDigit x := by simp [isDigit]
    have ht := takeWhile_run hws hr
    have hd := dropWhile_run hws hr
    rw [first_number (hwd c (by simp))]
    simp only [number, List.append_assoc, List.cons_append] at ht hd ⊢
    rw [hd, ht]
    have hl := length_le_takeWhile (p := isDigit) (fun x hx => hfd x (by simp [hx]))
      (List.prefix_append fs t)
    simp only [hfd f (by simp), if_true, chars, List.length_append, List.length_cons]
    omega

theorem length_le_first_string {body cs : List Char} (hq : IsQuotable body)
    (hp : body ++ [quoteMark] <+: cs) :
    (quoteMark :: (body ++ [quoteMark])).length ≤ (first quoteMark cs).1.chars.length := by
  obtain ⟨t, rfl⟩ := hp
  have hr : ∀ x ∈ (quoteMark :: t).head?, ¬ inString x := by simp [inString]
  have ht := takeWhile_run (inString_of_quotable hq) hr
  have hd := dropWhile_run (inString_of_quotable hq) hr
  rw [first_string]
  simp only [string, List.append_assoc, List.cons_append, List.nil_append]
  rw [hd, ht]
  simp [chars]

/-- The first piece of a text is as long as any lexeme at its head. -/
theorem length_le_first {kind : TokenKind} {text : String} {c : Char} {r cs : List Char}
    (hw : kind.Writes text (c :: r)) (hp : r <+: cs) :
    (c :: r).length ≤ (first c cs).1.chars.length := by
  have hword : IsWord (c :: r) → (c :: r).length ≤ (first c cs).1.chars.length := by
    rintro ⟨hc, hr⟩
    rw [first_word hc]
    simpa [word, chars] using length_le_takeWhile hr hp
  have hone : r = [] → (c :: r).length ≤ (first c cs).1.chars.length := by
    rintro rfl
    exact List.length_pos_iff.mpr (first_chars_ne_nil c cs)
  cases kind with
  | identifier => exact hword hw.1
  | keyword k => exact hword (isWord_of_keyword hw.1)
  | number => exact length_le_first_number hw.1 hp
  | string =>
    obtain ⟨he, hq⟩ := hw
    rw [List.cons_append, List.cons.injEq] at he
    obtain ⟨rfl, rfl⟩ := he
    exact length_le_first_string hq hp
  | symbol s =>
    cases r with
    | nil => exact hone rfl
    | cons d r =>
      have hl := length_spelling s
      rw [← hw.1] at hl
      have hr : r = [] := List.length_eq_zero_iff.mp (by simp only [List.length_cons] at hl; omega)
      subst hr
      obtain ⟨t, rfl⟩ := hp
      rw [first_spelling hw.1.symm]
      simp [symbol, pair?_eq_some.mpr hw.1.symm, chars]
  | newline => exact hone (List.cons.inj hw.1).2
  | invalid =>
    obtain ⟨⟨d, he, -⟩ | ⟨body, he, hq⟩, -⟩ := hw
    · exact hone (List.cons.inj he).2
    · obtain ⟨rfl, rfl⟩ := List.cons.inj he
      have h1 := length_le_takeWhile (inString_of_quotable hq) hp
      have h2 := string_body_le cs
      rw [first_string]
      simp only [List.length_cons]
      omega
  | endOfInput => exact hw.elim

theorem pair?_eq_none {c d : Char} (h : Symbol.pair? c d = none) (s : Symbol) :
    s.spelling.toList ≠ [c, d] := by
  intro he
  rw [pair?_eq_some.mpr he] at h
  cases h

theorem single?_eq_none {c : Char} (h : Symbol.single? c = none) (s : Symbol) :
    s.spelling.toList ≠ [c] := by
  intro he
  rw [single?_eq_some.mpr he] at h
  cases h

theorem quotable_takeWhile (cs : List Char) : IsQuotable (cs.takeWhile inString) := by
  intro c hc
  simpa [inString] using List.mem_takeWhile_imp hc

/-- Whether a piece writes a token, and ends where it may, without regard to its length. -/
def Fits (rest : List Char) : Piece → Prop
  | lexeme kind cs => kind.Writes (textOf kind cs) cs ∧ kind.Ends cs rest
  | p => p.Proper rest

theorem fits_word {c : Char} (h : isWordStart c) (cs : List Char) :
    (word c cs).1.Fits (word c cs).2 := by
  have hw : IsWord (c :: cs.takeWhile isWordChar) :=
    ⟨h, fun d hd => List.mem_takeWhile_imp hd⟩
  unfold word
  dsimp only
  split
  · next k hk => exact ⟨⟨ofWord?_eq_some.mp hk, rfl⟩, head_dropWhile_not⟩
  · next hk =>
    refine ⟨⟨hw, fun k he => ?_, String.toList_ofList⟩, head_dropWhile_not⟩
    rw [ofWord?_eq_some.mpr he] at hk
    cases hk

theorem fits_number {c : Char} (h : isDigit c) (cs : List Char) :
    (number c cs).1.Fits (number c cs).2 := by
  have hw : IsDigits (c :: cs.takeWhile isDigit) := by
    refine ⟨by simp, ?_⟩
    simp only [List.mem_cons, forall_eq_or_imp]
    exact ⟨h, fun d hd => List.mem_takeWhile_imp hd⟩
  have hr : ∀ d ∈ (cs.dropWhile isDigit).head?, ¬ isDigit d := head_dropWhile_not
  unfold number
  dsimp only
  split
  · next d r he =>
    rw [he] at hr
    split
    · next hd =>
      have hf : IsDigits (d :: r.takeWhile isDigit) := by
        refine ⟨by simp, ?_⟩
        simp only [List.mem_cons, forall_eq_or_imp]
        exact ⟨hd, fun x hx => List.mem_takeWhile_imp hx⟩
      exact ⟨⟨.inr ⟨_, _, hw, hf, rfl⟩, String.toList_ofList⟩, head_dropWhile_not, by simp⟩
    · next hd =>
      refine ⟨⟨.inl hw, String.toList_ofList⟩, hr, ?_⟩
      rintro - x y hx
      simp only [List.cons.injEq] at hx
      rw [← hx.2.1]
      exact hd
  · next hn =>
    refine ⟨⟨.inl hw, String.toList_ofList⟩, hr, ?_⟩
    rintro - d r he
    exact absurd he (hn d r)

theorem fits_string (cs : List Char) : (string cs).1.Fits (string cs).2 := by
  have hq := quotable_takeWhile cs
  have hr : ∀ d ∈ (cs.dropWhile inString).head?, ¬ inString d := head_dropWhile_not
  unfold string
  dsimp only
  split
  · next d r he =>
    rw [he] at hr
    split
    · next hd =>
      subst hd
      refine ⟨⟨?_, ?_⟩, trivial⟩ <;> simp [textOf, hq]
    · next hd =>
      refine ⟨⟨.inr ⟨_, rfl, hq⟩, String.toList_ofList⟩, fun _ x hx => ?_, ?_⟩
      · have hx' := hr x hx
        simp only [List.head?_cons, Option.mem_some_iff] at hx
        subst hx
        simpa [inString, hd] using hx'
      · rintro x y hx -
        obtain ⟨rfl, -⟩ := List.cons.inj hx
        intro s
        cases s <;> simp [Symbol.spelling, quoteMark]
  · exact ⟨⟨.inr ⟨_, rfl, hq⟩, String.toList_ofList⟩, by simp [TokenKind.Ends]⟩

theorem fits_one {c : Char} (hs : Symbol.single? c = none → IsStray c) {rest : List Char}
    (hr : ∀ d ∈ rest.head?, ∀ s : Symbol, s.spelling.toList ≠ [c, d]) :
    (symbol.one c).Fits rest := by
  have hp : ∀ x d, [c] = [x] → d ∈ rest.head? → ∀ s : Symbol, s.spelling.toList ≠ [x, d] := by
    rintro x d hx hd
    obtain ⟨rfl, -⟩ := List.cons.inj hx
    exact hr d hd
  unfold symbol.one
  split
  · next s h =>
    refine ⟨⟨(single?_eq_some.mp h).symm, ?_⟩, hp⟩
    simp only [textOf]
    rw [← single?_eq_some.mp h, String.ofList_toList]
  · next h =>
    refine ⟨⟨.inl ⟨c, rfl, hs h⟩, String.toList_ofList⟩, ?_, hp⟩
    intro hq
    exact absurd (List.mem_singleton.mp hq).symm (hs h).2.2.2.2.2.1

theorem fits_symbol {c : Char} (hs : Symbol.single? c = none → IsStray c) (cs : List Char) :
    (symbol c cs).1.Fits (symbol c cs).2 := by
  unfold symbol
  split
  · exact fits_one hs (by simp)
  · next d r =>
    split
    · next s h =>
      refine ⟨⟨(pair?_eq_some.mp h).symm, ?_⟩, by simp [TokenKind.Ends]⟩
      simp only [textOf]
      rw [← pair?_eq_some.mp h, String.ofList_toList]
    · next h =>
      apply fits_one hs
      intro x hx
      obtain rfl : d = x := by simpa using hx
      exact pair?_eq_none h

theorem fits_first (c : Char) (cs : List Char) : (first c cs).1.Fits (first c cs).2 := by
  unfold first
  split
  · next h => simpa [Fits, Proper, isGap, or_assoc] using h
  split
  · next h => exact ⟨⟨by rw [h], by simp [textOf]⟩, trivial⟩
  split
  · next h =>
    subst h
    refine ⟨⟨_, rfl, fun hn => ?_⟩, fun d hd => ?_⟩
    · simpa using List.mem_takeWhile_imp hn
    · simpa using head_dropWhile_not d hd
  split
  · next h => exact fits_word h cs
  split
  · next h => exact fits_number h cs
  split
  · exact fits_string cs
  · next hg hn hh hw hd hq =>
    exact fits_symbol (fun h => ⟨hg, hn, hh, hw, hd, hq, single?_eq_none h⟩) cs

theorem longest_first (c : Char) (cs : List Char) :
    IsLongest (first c cs).1.chars (first c cs).2 := by
  intro kind text other hw hp
  rw [first_append] at hp
  cases other with
  | nil => exact Nat.zero_le _
  | cons d r =>
    obtain ⟨rfl, hr⟩ := List.cons_prefix_cons.mp hp
    exact length_le_first hw hr

/-- The first piece of a text is cut as it should be. -/
theorem proper_first (c : Char) (cs : List Char) : (first c cs).1.Proper (first c cs).2 := by
  have hf := fits_first c cs
  have hl := longest_first c cs
  cases hp : (first c cs).1 with
  | gap d => rwa [hp] at hf
  | comment ds => rwa [hp] at hf
  | lexeme kind ds =>
    rw [hp] at hf hl
    exact ⟨hf.1, hl, hf.2⟩

/-! No text has a second proper first piece. -/

theorem chars_ne_nil_of_writes {kind : TokenKind} {text : String} {cs : List Char}
    (h : kind.Writes text cs) : cs ≠ [] := by
  rintro rfl
  cases kind with
  | identifier => exact h.1
  | keyword k => exact isWord_of_keyword h.1
  | number => simp [TokenKind.Writes, IsNumber, IsDigits] at h
  | string => simp [TokenKind.Writes] at h
  | symbol s =>
    have hl := length_spelling s
    rw [← h.1] at hl
    simp at hl
  | newline => simp [TokenKind.Writes] at h
  | invalid => simp [TokenKind.Writes] at h
  | endOfInput => exact h

theorem head_of_number {c : Char} {r : List Char} (h : IsNumber (c :: r)) : isDigit c := by
  obtain ⟨-, hd⟩ | ⟨whole, fraction, ⟨hw0, hwd⟩, -, he⟩ := h
  · exact hd c (by simp)
  · obtain ⟨w, ws, rfl⟩ := List.exists_cons_of_ne_nil hw0
    obtain ⟨rfl, -⟩ := List.cons.inj he
    exact hwd c (by simp)

theorem first_of_stray {c : Char} (h : IsStray c) : (first c []).1 = lexeme .invalid [c] := by
  have hn : Symbol.single? c = none := by
    rw [Option.eq_none_iff_forall_ne_some]
    exact fun s he => h.2.2.2.2.2.2 s (single?_eq_some.mp he)
  rw [first_stray h]
  simp [symbol, symbol.one, hn]

/-- The kind of a lexeme can be read off its characters. -/
theorem first_of_writes {kind : TokenKind} {text : String} {c : Char} {r : List Char}
    (h : kind.Writes text (c :: r)) : ∃ cs, (first c r).1 = lexeme kind cs := by
  cases kind with
  | identifier =>
    obtain ⟨⟨hc, hr⟩, hk, -⟩ := h
    have hn : Keyword.ofWord? (c :: r) = none := by
      rw [Option.eq_none_iff_forall_ne_some]
      exact fun k he => hk k (ofWord?_eq_some.mp he)
    rw [first_word hc]
    simp [word, List.takeWhile_eq_self_iff.mpr hr, hn]
  | keyword k =>
    obtain ⟨hc, hr⟩ := isWord_of_keyword h.1
    rw [first_word hc]
    simp [word, List.takeWhile_eq_self_iff.mpr hr, ofWord?_eq_some.mpr h.1]
  | number =>
    rw [first_number (head_of_number h.1)]
    unfold number
    split
    · split <;> simp
    · simp
  | string =>
    obtain ⟨he, hq⟩ := h
    rw [List.cons_append, List.cons.injEq] at he
    obtain ⟨rfl, rfl⟩ := he
    have hr : ∀ x ∈ [quoteMark].head?, ¬ inString x := by simp [inString]
    rw [first_string, string, dropWhile_run (inString_of_quotable hq) hr]
    simp
  | symbol s =>
    rw [first_spelling h.1.symm]
    cases r with
    | nil => simp [symbol, symbol.one, single?_eq_some.mpr h.1.symm]
    | cons d r =>
      have hl := length_spelling s
      rw [← h.1] at hl
      have hr : r = [] := List.length_eq_zero_iff.mp (by simp only [List.length_cons] at hl; omega)
      subst hr
      simp [symbol, pair?_eq_some.mpr h.1.symm]
  | newline =>
    obtain ⟨rfl, rfl⟩ := List.cons.inj h.1
    exact ⟨_, rfl⟩
  | invalid =>
    obtain ⟨⟨d, he, hs⟩ | ⟨body, he, hq⟩, -⟩ := h
    · obtain ⟨rfl, rfl⟩ := List.cons.inj he
      exact ⟨_, first_of_stray hs⟩
    · obtain ⟨rfl, rfl⟩ := List.cons.inj he
      have hd : r.dropWhile inString = [] :=
        List.dropWhile_eq_nil_iff.mpr (inString_of_quotable hq)
      rw [first_string, string, hd]
      simp
  | endOfInput => exact h.elim

theorem kind_unique {kind kind' : TokenKind} {text text' : String} {cs : List Char}
    (h : kind.Writes text cs) (h' : kind'.Writes text' cs) : kind = kind' := by
  obtain ⟨c, r, rfl⟩ := List.exists_cons_of_ne_nil (chars_ne_nil_of_writes h)
  obtain ⟨ds, hd⟩ := first_of_writes h
  obtain ⟨es, he⟩ := first_of_writes h'
  rw [hd] at he
  exact (Piece.lexeme.inj he).1

/-- A piece that is cut as it should be is the first piece of its text. -/
theorem first_of_proper {p : Piece} {rest : List Char} {c : Char} {cs : List Char}
    (hp : p.Proper rest) (ha : p.chars ++ rest = c :: cs) : first c cs = (p, rest) := by
  cases p with
  | gap d =>
    obtain ⟨rfl, rfl⟩ := List.cons.inj ha
    have hg : isGap d := by simpa [Proper, isGap, or_assoc] using hp
    simp [first, hg]
  | comment ds =>
    obtain ⟨⟨body, rfl, hb⟩, hr⟩ := hp
    rw [chars, List.cons_append, List.cons.injEq] at ha
    obtain ⟨rfl, rfl⟩ := ha
    have hb' : ∀ x ∈ body, (decide (x ≠ '\n')) := by
      intro x hx
      rw [decide_eq_true_eq]
      rintro rfl
      exact hb hx
    have hr' : ∀ x ∈ rest.head?, ¬ (decide (x ≠ '\n')) := by
      intro x hx
      simpa using hr x hx
    have ht := takeWhile_run hb' hr'
    have hd := dropWhile_run hb' hr'
    change (comment ('#' :: (body ++ rest).takeWhile (· ≠ '\n')), _) = _
    rw [ht, hd]
  | lexeme kind ds =>
    obtain ⟨hw, hl, -⟩ := hp
    change ds ++ rest = c :: cs at ha
    obtain ⟨d, r, rfl⟩ := List.exists_cons_of_ne_nil (chars_ne_nil_of_writes hw)
    rw [List.cons_append, List.cons.injEq] at ha
    obtain ⟨rfl, rfl⟩ := ha
    obtain ⟨es, he⟩ := first_of_writes hw
    have ha' := first_append d (r ++ rest)
    have hf := proper_first d (r ++ rest)
    have hlong := length_le_first hw (List.prefix_append r rest)
    cases hp' : (first d (r ++ rest)).1 with
    | gap g =>
      rw [hp'] at ha' hf
      obtain ⟨rfl, -⟩ := List.cons.inj ha'
      have hg : isGap g := by simpa [Proper, isGap, or_assoc] using hf
      simp [first, hg] at he
    | comment gs =>
      rw [hp'] at ha' hf
      obtain ⟨⟨body, rfl, -⟩, -⟩ := hf
      obtain ⟨rfl, -⟩ := List.cons.inj ha'
      cases he
    | lexeme kind' gs =>
      rw [hp'] at ha' hf hlong
      change gs ++ _ = (d :: r) ++ rest at ha'
      have hshort := hl _ _ gs hf.1 ⟨_, ha'⟩
      obtain ⟨rfl, hrest⟩ := List.append_inj ha' (le_antisymm hshort hlong)
      exact Prod.ext (hp'.trans (by rw [kind_unique hw hf.1])) hrest

end AgentScript.Piece

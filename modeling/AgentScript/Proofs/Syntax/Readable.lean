import AgentScript.Proofs.Syntax.Phrase
import AgentScript.Proofs.Number.Numeral
import AgentScript.Proofs.Token.Cut

/-! The parser can read the text of every token that the lexer makes. -/
namespace AgentScript.Grammar

open AgentScript.Parser Text

theorem plain_of_isNumber {cs : List Char} (h : IsNumber cs) : ∀ c ∈ cs, Number.IsPlain c := by
  intro c hc
  rcases h with ⟨-, h⟩ | ⟨whole, fraction, ⟨-, hw⟩, ⟨-, hf⟩, rfl⟩
  · exact Number.isPlain_of_isDigit (h c hc)
  · rcases List.mem_append.mp hc with hc | hc
    · exact Number.isPlain_of_isDigit (hw c hc)
    · rcases List.mem_cons.mp hc with rfl | hc
      · exact Number.isPlain_point
      · exact Number.isPlain_of_isDigit (hf c hc)

theorem splitSign_of_isNumber {cs : List Char} (h : IsNumber cs) :
    Number.splitSign cs = (false, cs) := by
  have hd : ∀ cs rest : List Char, IsDigits cs →
      Number.splitSign (cs ++ rest) = (false, cs ++ rest) := by
    rintro cs rest ⟨hne, h⟩
    obtain ⟨c, r, rfl⟩ := List.exists_cons_of_ne_nil hne
    exact Number.splitSign_of_digit (h c (by simp)) _
  rcases h with h | ⟨whole, fraction, hw, -, rfl⟩
  · simpa using hd cs [] h
  · exact hd whole _ hw

theorem digits_run {cs : List Char} (h : ∀ c ∈ cs, isDigit c) :
    cs.takeWhile isDigit = cs ∧ cs.dropWhile isDigit = [] :=
  ⟨List.takeWhile_eq_self_iff.mpr h, List.dropWhile_eq_nil_iff.mpr h⟩

theorem readUnsigned_of_isNumber {cs : List Char} (h : IsNumber cs) :
    ∃ d, Number.readUnsigned cs = some d := by
  rcases h with ⟨hne, h⟩ | ⟨whole, fraction, ⟨hne, hw⟩, ⟨-, hf⟩, rfl⟩
  · obtain ⟨ht, hd⟩ := digits_run h
    simp [Number.readUnsigned, ht, hd, hne]
  · have hp : ∀ c ∈ ('.' :: fraction).head?, ¬ isDigit c := by
      rintro c ⟨⟩
      decide
    have ht := Piece.takeWhile_run hw hp
    have hd := Piece.dropWhile_run hw hp
    obtain ⟨htf, hdf⟩ := digits_run hf
    simp [Number.readUnsigned, ht, hd, htf, hdf, hne]

/-- The text of a number token is a number. -/
theorem readFloat?_of_isNumber {cs : List Char} (h : IsNumber cs) :
    ∃ x, Number.readFloat? (String.ofList cs) = some x := by
  obtain ⟨d, hd⟩ := readUnsigned_of_isNumber h
  refine ⟨Number.nearest d, ?_⟩
  rw [Number.readFloat?, Number.plainDigits_of_plain (plain_of_isNumber h)]
  simp [splitSign_of_isNumber h, hd]

theorem binaryOf_of_lower {kind : TokenKind} {text : String} {loc : Location} {op : BinaryOp}
    (h : lower text = op.spelling) : binaryOf ⟨kind, text, loc⟩ = .ok op := by
  have hs : BinaryOp.ofSpelling? op.spelling = some op := by cases op <;> decide
  simp only [binaryOf, h, hs]

theorem unaryOf_of_lower {kind : TokenKind} {text : String} {loc : Location} {op : UnaryOp}
    (h : lower text = op.spelling) : unaryOf ⟨kind, text, loc⟩ = .ok op := by
  have hs : UnaryOp.ofSpelling? op.spelling = some op := by cases op <;> decide
  simp only [unaryOf, h, hs]

theorem binaryOf_symbol {k : Nat} {s : Symbol} {op : BinaryOp} (loc : Location)
    (h : binaryOp? k (.symbol s) = some op) :
    binaryOf ⟨.symbol s, s.spelling, loc⟩ = .ok op := by
  unfold binaryOp? at h
  split at h <;> cases h <;> rename_i he <;> cases he <;> exact binaryOf_of_lower (by decide)

theorem binaryOf_keyword {k : Nat} {w : Keyword} {op : BinaryOp} (loc : Location)
    (h : binaryOp? k (.keyword w) = some op) :
    binaryOf ⟨.keyword w, w.spelling, loc⟩ = .ok op := by
  unfold binaryOp? at h
  split at h <;> cases h <;> rename_i he <;> cases he <;> exact binaryOf_of_lower (by decide)

/-- Every lexeme can be read as its kind says. -/
theorem readable_of_writes {kind : TokenKind} {text : String} {cs : List Char}
    (h : kind.Writes text cs) (loc : Location) : Readable ⟨kind, text, loc⟩ := by
  constructor
  · rintro rfl
    obtain ⟨hn, ht⟩ := h
    obtain rfl : text = String.ofList cs := by rw [← ht, String.ofList_toList]
    exact readFloat?_of_isNumber hn
  · intro k op ho
    cases kind with
    | symbol s =>
      obtain ⟨-, rfl⟩ := h
      exact binaryOf_symbol loc ho
    | keyword w =>
      obtain ⟨-, rfl⟩ := h
      exact binaryOf_keyword loc ho
    | _ =>
      unfold binaryOp? at ho
      split at ho <;> simp_all
  · intro op ho
    cases kind with
    | symbol s =>
      obtain ⟨-, rfl⟩ := h
      cases s <;> cases ho
      exact unaryOf_of_lower (by decide)
    | keyword w =>
      obtain ⟨-, rfl⟩ := h
      cases w <;> cases ho
      exact unaryOf_of_lower (by decide)
    | _ => cases ho

end AgentScript.Grammar

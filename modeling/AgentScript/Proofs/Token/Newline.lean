import AgentScript.Proofs.Token.Cut

/-! Texts one after the other, each on lines of its own. No piece reaches past a newline, so that the
cut of the whole is one cut after the other, and the second text has its tokens further down. -/
namespace AgentScript

open Text

def Location.down (k : Nat) (l : Location) : Location := ⟨l.line + k, l.column⟩

def Token.relocate (f : Location → Location) (t : Token) : Token := { t with loc := f t.loc }

@[simp] theorem Token.relocate_kind (f : Location → Location) (t : Token) :
    (t.relocate f).kind = t.kind := rfl

@[simp] theorem Token.relocate_text (f : Location → Location) (t : Token) :
    (t.relocate f).text = t.text := rfl

/-- A lexeme with a newline in it is a newline. -/
theorem TokenKind.Writes.eq_newline {kind : TokenKind} {text : String} {cs : List Char}
    (h : kind.Writes text cs) (hn : '\n' ∈ cs) : cs = ['\n'] := by
  have word {w : List Char} (hw : IsWord w) : '\n' ∉ w := by
    cases w with
    | nil => exact hw.elim
    | cons c w =>
      intro hm
      rcases List.mem_cons.mp hm with rfl | hm
      · exact absurd hw.1 (by decide)
      · exact absurd (hw.2 _ hm) (by decide)
  have digits {w : List Char} (hw : IsDigits w) : '\n' ∉ w :=
    fun hm => absurd (hw.2 _ hm) (by decide)
  have quotable {w : List Char} (hw : IsQuotable w) : '\n' ∉ w := fun hm => (hw _ hm).2 rfl
  cases kind with
  | identifier => exact (word h.1 hn).elim
  | keyword k => exact (word (Piece.isWord_of_keyword h.1) hn).elim
  | number =>
    obtain ⟨hd | ⟨whole, fraction, hw, hf, rfl⟩, -⟩ := h
    · exact (digits hd hn).elim
    · have hw := digits hw
      have hf := digits hf
      simp [hw, hf] at hn
  | string =>
    obtain ⟨rfl, hq⟩ := h
    have hq := quotable hq
    simp [hq, quoteMark] at hn
  | symbol s =>
    rw [h.1] at hn
    cases s <;> simp [Symbol.spelling] at hn
  | newline => exact h.1
  | invalid =>
    obtain ⟨⟨c, rfl, hs⟩ | ⟨body, rfl, hq⟩, -⟩ := h
    · obtain rfl : '\n' = c := List.mem_singleton.mp hn
      exact absurd rfl hs.2.1
    · have hq := quotable hq
      simp [hq, quoteMark] at hn
  | endOfInput => exact h.elim

/-- Nothing that a newline follows would be longer. -/
theorem IsLongest.before_newline {cs rest : List Char} (h : IsLongest cs rest) (hc : cs ≠ [])
    (more : List Char) : IsLongest cs (rest ++ '\n' :: more) := by
  intro kind text other hw hp
  by_cases hlen : other.length ≤ (cs ++ rest).length
  · rw [← List.append_assoc] at hp
    exact h kind text other hw (List.prefix_of_prefix_length_le hp (List.prefix_append _ _) hlen)
  · -- a longer lexeme would have the newline in it
    have hthrough : cs ++ rest ++ ['\n'] <+: other := by
      refine List.prefix_of_prefix_length_le ?_ hp ?_
      · exact ⟨more, by simp⟩
      · simp only [List.length_append, List.length_singleton] at hlen ⊢
        omega
    have hn : '\n' ∈ other := hthrough.subset (by simp)
    rw [hw.eq_newline hn]
    exact List.length_pos_iff.mpr hc

namespace Piece

theorem Proper.before_newline {p : Piece} {rest : List Char} (h : p.Proper rest)
    (more : List Char) : p.Proper (rest ++ '\n' :: more) := by
  -- after the text stands what stood after it before, or else the newline
  have head {P : Char → Prop} (hr : ∀ c ∈ rest.head?, P c) (hn : P '\n') :
      ∀ c ∈ (rest ++ '\n' :: more).head?, P c := by
    cases rest with
    | nil => simpa using hn
    | cons d r => simpa using hr
  have pair (c : Char) (s : Symbol) : s.spelling.toList ≠ [c, '\n'] := by
    cases s <;> simp [Symbol.spelling]
  cases p with
  | gap c => exact h
  | comment cs => exact ⟨h.1, head h.2 rfl⟩
  | lexeme kind cs =>
    obtain ⟨hw, hl, he⟩ := h
    refine ⟨hw, hl.before_newline (chars_ne_nil_of_writes hw) more, ?_⟩
    cases kind with
    | identifier => exact head he (by decide)
    | keyword k => exact head he (by decide)
    | number =>
      refine ⟨head he.1 (by decide), fun hp d r hr => ?_⟩
      rcases rest with _ | ⟨x, _ | ⟨y, rest⟩⟩
      · cases hr
      · obtain ⟨-, rfl, -⟩ : x = '.' ∧ '\n' = d ∧ more = r := by simpa using hr
        decide
      · obtain ⟨rfl, rfl, -⟩ : x = '.' ∧ y = d ∧ rest ++ '\n' :: more = r := by simpa using hr
        exact he.2 hp y rest rfl
    | symbol s =>
      intro c d hc hd
      exact head (P := fun d => ∀ s : Symbol, s.spelling.toList ≠ [c, d])
        (fun d hd => he c d hc hd) (pair c) d hd
    | invalid =>
      refine ⟨fun hq => head (he.1 hq) rfl, fun c d hc hd => ?_⟩
      exact head (P := fun d => ∀ s : Symbol, s.spelling.toList ≠ [c, d])
        (fun d hd => he.2 c d hc hd) (pair c) d hd
    | string | newline | endOfInput => trivial

end Piece

theorem textOfPieces_append (ps qs : List Piece) :
    textOfPieces (ps ++ qs) = textOfPieces ps ++ textOfPieces qs := List.flatMap_append

/-- A newline is cut off by itself. -/
theorem proper_newline (rest : List Char) : (Piece.lexeme .newline ['\n']).Proper rest :=
  Piece.proper_first '\n' rest

theorem ProperCut.append_newline {ps qs : List Piece} (hp : ProperCut ps) (hq : ProperCut qs) :
    ProperCut (ps ++ .lexeme .newline ['\n'] :: qs) := by
  induction ps with
  | nil => exact ⟨proper_newline _, hq⟩
  | cons p ps ih =>
    refine ⟨?_, ih hp.2⟩
    change p.Proper (textOfPieces (ps ++ _))
    rw [textOfPieces_append]
    exact hp.1.before_newline _

/-- Two texts with a newline between them are cut one after the other. -/
theorem pieces_append_newline (cs ds : List Char) :
    pieces (cs ++ '\n' :: ds) = pieces cs ++ .lexeme .newline ['\n'] :: pieces ds := by
  have h := (properCut_pieces cs).append_newline (properCut_pieces ds)
  have ht : textOfPieces (pieces cs ++ .lexeme .newline ['\n'] :: pieces ds) = cs ++ '\n' :: ds := by
    rw [textOfPieces_append, textOfPieces_cons, textOfPieces_pieces, textOfPieces_pieces]
    rfl
  rw [eq_pieces_of_properCut h, ht]

theorem tokensOf_ne_nil (loc : Location) (ps : List Piece) : tokensOf loc ps ≠ [] := by
  induction ps generalizing loc with
  | nil => exact List.cons_ne_nil _ _
  | cons p ps ih => exact List.append_ne_nil_of_right_ne_nil _ (ih _)

/-- Pieces after other pieces are placed after their text. -/
theorem tokensOf_append (loc : Location) (ps qs : List Piece) :
    tokensOf loc (ps ++ qs) =
      (tokensOf loc ps).dropLast ++ tokensOf (loc.afterAll (textOfPieces ps)) qs := by
  induction ps generalizing loc with
  | nil => rfl
  | cons p ps ih =>
    rw [List.cons_append, tokensOf, ih, tokensOf,
      List.dropLast_append_of_ne_nil (tokensOf_ne_nil _ _), List.append_assoc, textOfPieces_cons,
      Location.afterAll_append]

namespace Location

theorem down_after (k : Nat) (l : Location) (c : Char) : (l.down k).after c = (l.after c).down k := by
  unfold after
  split
  · simp only [down, mk.injEq, and_true]
    omega
  · rfl

theorem down_afterAll (k : Nat) (l : Location) (cs : List Char) :
    (l.down k).afterAll cs = (l.afterAll cs).down k := by
  induction cs generalizing l with
  | nil => rfl
  | cons c cs ih =>
    change ((l.down k).after c).afterAll cs = _
    rw [down_after, ih]
    rfl

/-- After a text and a newline comes the first place of a line. -/
theorem after_newline (cs : List Char) :
    (start.afterAll cs).after '\n' = start.down (cs.count '\n' + 1) := by
  rw [afterAll_start]
  simp only [after, past, down, start, if_true, mk.injEq, and_true]
  omega

end Location

/-- Further down, pieces have the same tokens. -/
theorem tokensOf_down (k : Nat) (loc : Location) (ps : List Piece) :
    tokensOf (loc.down k) ps = (tokensOf loc ps).map (Token.relocate (Location.down k)) := by
  induction ps generalizing loc with
  | nil => rfl
  | cons p ps ih =>
    rw [tokensOf, Location.down_afterAll, ih, tokensOf, List.map_append]
    cases p <;> rfl

/-- Pieces have an end of input after them, at the place after their text. -/
theorem tokensOf_end (loc : Location) (ps : List Piece) :
    tokensOf loc ps =
      (tokensOf loc ps).dropLast ++ [⟨.endOfInput, "", loc.afterAll (textOfPieces ps)⟩] := by
  have h := tokensOf_append loc ps []
  rwa [List.append_nil] at h

/-- Two texts with a newline between them have the tokens of the first, the newline where the first
ends, and the tokens of the second further down. -/
theorem tokenize_join (source₁ source₂ : String) :
    tokenize (source₁ ++ "\n" ++ source₂) =
      (tokenize source₁).dropLast ++ ⟨.newline, "\n", Location.start.afterAll source₁.toList⟩ ::
        (tokenize source₂).map
          (Token.relocate (Location.down (source₁.toList.count '\n' + 1))) := by
  have hs : (source₁ ++ "\n" ++ source₂).toList = source₁.toList ++ '\n' :: source₂.toList := by
    simp
  rw [tokenize, hs, pieces_append_newline, tokensOf_append, textOfPieces_pieces, tokensOf]
  change _ ++ _ :: tokensOf ((Location.start.afterAll source₁.toList).after '\n') _ = _
  rw [Location.after_newline, tokensOf_down]
  rfl

/-- Two texts with a newline between them, whether or not they are programs: the end of input of the
first becomes the newline, and the tokens of the second stand as many lines further down as the first
has lines. -/
theorem tokenize_append_newline (source₁ source₂ : String) :
    ∃ (body : List Token) (place : Location),
      tokenize source₁ = body ++ [⟨.endOfInput, "", place⟩] ∧
      tokenize (source₁ ++ "\n" ++ source₂) = body ++ ⟨.newline, "\n", place⟩ ::
        (tokenize source₂).map
          (Token.relocate (Location.down (source₁.toList.count '\n' + 1))) := by
  refine ⟨(tokenize source₁).dropLast, Location.start.afterAll source₁.toList, ?_, ?_⟩
  · have h := tokensOf_end .start (pieces source₁.toList)
    rwa [textOfPieces_pieces] at h
  · exact tokenize_join source₁ source₂

/-- An unclosed quotation mark does not reach over the newline. -/
example : tokenize "\"a\n5" =
    [⟨.invalid, "\"a", ⟨1, 1⟩⟩, ⟨.newline, "\n", ⟨1, 3⟩⟩, ⟨.number, "5", ⟨2, 1⟩⟩,
      ⟨.endOfInput, "", ⟨2, 2⟩⟩] := by
  cbv

end AgentScript

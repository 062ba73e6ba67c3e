import AgentScript.Proofs.Token.First
import Mathlib.Data.List.Permutation

/-! The cut of a whole text into pieces, and the places of its tokens. -/
namespace AgentScript

open Text

theorem textOfPieces_cons (p : Piece) (ps : List Piece) :
    textOfPieces (p :: ps) = p.chars ++ textOfPieces ps := List.flatMap_cons

theorem textOfPieces_pieces (cs : List Char) : textOfPieces (pieces cs) = cs := by
  fun_induction pieces cs with
  | case1 => rfl
  | case2 c cs ih => rw [textOfPieces_cons, ih, Piece.first_append]

theorem properCut_pieces (cs : List Char) : ProperCut (pieces cs) := by
  fun_induction pieces cs with
  | case1 => trivial
  | case2 c cs ih =>
    refine ⟨?_, ih⟩
    rw [textOfPieces_pieces]
    exact Piece.proper_first c cs

/-- A text has one proper cut. -/
theorem eq_pieces_of_properCut {ps : List Piece} (h : ProperCut ps) :
    ps = pieces (textOfPieces ps) := by
  induction ps with
  | nil => simp [textOfPieces, pieces]
  | cons p ps ih =>
    obtain ⟨hp, hps⟩ := h
    have hne : p.chars ≠ [] := by
      cases p with
      | gap c => simp [Piece.chars]
      | comment cs =>
        obtain ⟨⟨body, rfl, -⟩, -⟩ := hp
        simp [Piece.chars]
      | lexeme kind cs => exact Piece.chars_ne_nil_of_writes hp.1
    obtain ⟨c, r, hc⟩ := List.exists_cons_of_ne_nil hne
    have ht : textOfPieces (p :: ps) = c :: (r ++ textOfPieces ps) := by
      rw [textOfPieces_cons, hc, List.cons_append]
    have hf := Piece.first_of_proper hp (by rw [hc, List.cons_append])
    rw [ht, pieces, hf, ← ih hps]

theorem Location.afterAll_start (cs : List Char) : Location.start.afterAll cs = .past cs := by
  induction cs using List.reverseRecOn with
  | nil => rfl
  | append_singleton cs c ih =>
    rw [Location.afterAll_append, ih]
    by_cases hc : c = '\n'
    · subst hc
      simp [Location.afterAll, Location.after, Location.past]
      omega
    · simp [Location.afterAll, Location.after, Location.past, hc]
      omega

theorem tokensOf_past (before : List Char) (ps : List Piece) :
    tokensOf (.past before) ps = tokensPast before ps := by
  induction ps generalizing before with
  | nil => rfl
  | cons p ps ih =>
    rw [tokensOf, tokensPast, ← Location.afterAll_start, ← Location.afterAll_append,
      Location.afterAll_start, Location.afterAll_start, ih]

theorem tokenize_cut (source : String) :
    ∃ ps : List Piece, textOfPieces ps = source.toList ∧ ProperCut ps ∧
      tokenize source = tokensPast [] ps ∧
      ∀ qs, textOfPieces qs = source.toList → ProperCut qs → qs = ps := by
  refine ⟨pieces source.toList, textOfPieces_pieces _, properCut_pieces _, ?_, ?_⟩
  · exact tokensOf_past [] _
  · intro qs ht hq
    rw [← ht]
    exact eq_pieces_of_properCut hq

/-- Digits after a second point are a number of their own. -/
theorem number_before_point :
    ¬ ∀ (source : String) (before after : List Piece) (cs : List Char),
      pieces source.toList = before ++ .lexeme .number cs :: after →
      (∀ c ∈ (textOfPieces after).head?, ¬ isDigit c) ∧
        ∀ d r, textOfPieces after = '.' :: d :: r → ¬ isDigit d := by
  intro h
  have hp : pieces "1.2.3".toList =
      [.lexeme .number ['1', '.', '2'], .lexeme .invalid ['.'], .lexeme .number ['3']] := by
    cbv
  have hn := (h "1.2.3" [] _ _ hp).2 '3' [] rfl
  exact hn (by decide)

end AgentScript

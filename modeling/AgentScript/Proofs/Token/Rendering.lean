import AgentScript.Proofs.Token.Newline

/-! Tokens written out as a text. A lexeme that ends where it may is the first piece of its text, so
that blanks between the tokens keep them apart, and the tokens of the text are those it was written
from. -/
namespace AgentScript

open Text

namespace TokenKind

/-- The texts that tokens of a kind have, the end of input aside. Of the invalid tokens it is those
of one character: an unclosed string runs to the end of its line. -/
def Admits : TokenKind → String → Prop
  | identifier, text =>
    IsWord text.toList ∧ ∀ k : Keyword, text.toList.map Char.toUpper ≠ k.spelling.toList
  | keyword k, text => text = k.spelling
  | number, text => IsNumber text.toList
  | string, text => IsQuotable text.toList
  | symbol s, text => text = s.spelling
  | newline, text => text = "\n"
  | invalid, text => ∃ c, text.toList = [c] ∧ IsStray c
  | endOfInput, _ => False

/-- `kind.Renders text cs`: a way to write a token. Keywords may be in any mixture of letter cases,
strings are in quotation marks, and a comment may stand directly before a newline. -/
def Renders : TokenKind → String → List Char → Prop
  | keyword k, _, cs => cs.map Char.toUpper = k.spelling.toList
  | string, text, cs => cs = quoteMark :: text.toList ++ [quoteMark]
  | newline, _, cs => cs = ['\n'] ∨ ∃ body, '\n' ∉ body ∧ cs = '#' :: body ++ ['\n']
  | _, text, cs => cs = text.toList

end TokenKind

/-- Tokens, given by their kinds and texts, written one after the other with blanks between. -/
inductive Renders : List (TokenKind × String) → List Char → Prop
  | none : Renders [] []
  | last {kind : TokenKind} {text : String} {cs : List Char} (lexeme : kind.Renders text cs) :
      Renders [(kind, text)] cs
  | next {kind : TokenKind} {text : String} {cs gap rest : List Char}
      {token : TokenKind × String} {tokens : List (TokenKind × String)}
      (lexeme : kind.Renders text cs) (apart : gap ≠ []) (blank : ∀ c ∈ gap, isGap c)
      (others : Renders (token :: tokens) rest) :
      Renders ((kind, text) :: token :: tokens) (cs ++ gap ++ rest)

def Token.reading (t : Token) : TokenKind × String := (t.kind, t.text)

def Piece.reading? : Piece → Option (TokenKind × String)
  | lexeme kind cs => some (kind, textOf kind cs)
  | _ => none

theorem map_reading_tokensOf (loc : Location) (ps : List Piece) :
    (tokensOf loc ps).map Token.reading = ps.filterMap Piece.reading? ++ [(.endOfInput, "")] := by
  induction ps generalizing loc with
  | nil => rfl
  | cons p ps ih =>
    rw [tokensOf, List.map_append, ih]
    cases p <;> rfl

namespace Piece

/-- A number that no digit follows, nor a point and a digit if it has no fraction, is cut whole. -/
theorem number_of_ends {c : Char} {r rest : List Char} (hw : IsNumber (c :: r))
    (he : TokenKind.number.Ends (c :: r) rest) :
    number c (r ++ rest) = (lexeme .number (c :: r), rest) := by
  obtain ⟨hr, hp⟩ := he
  obtain ⟨-, hd⟩ | ⟨whole, fraction, ⟨hw0, hwd⟩, ⟨hf0, hfd⟩, he⟩ := hw
  · have hd' : ∀ x ∈ r, isDigit x := fun x hx => hd x (by simp [hx])
    have hpoint : '.' ∉ c :: r := fun hx => absurd (hd '.' hx) (by decide)
    unfold number
    rw [takeWhile_run hd' hr, dropWhile_run hd' hr]
    split
    · next d t => rw [if_neg (hp hpoint d t rfl)]
    · rfl
  · obtain ⟨w, ws, rfl⟩ := List.exists_cons_of_ne_nil hw0
    obtain ⟨f, fs, rfl⟩ := List.exists_cons_of_ne_nil hf0
    rw [List.cons_append, List.cons.injEq] at he
    obtain ⟨rfl, rfl⟩ := he
    have hws : ∀ x ∈ ws, isDigit x := fun x hx => hwd x (by simp [hx])
    have hfs : ∀ x ∈ fs, isDigit x := fun x hx => hfd x (by simp [hx])
    have hpoint : ∀ x ∈ ('.' :: f :: (fs ++ rest)).head?, ¬ isDigit x := by simp [isDigit]
    have ht := takeWhile_run hws hpoint
    have hd := dropWhile_run hws hpoint
    simp only [number, List.append_assoc, List.cons_append, ht, hd, hfd f (by simp), if_true,
      takeWhile_run hfs hr, dropWhile_run hfs hr]

/-- A lexeme that ends where it may is the first piece of its text. -/
theorem first_of_ends {kind : TokenKind} {text : String} {c : Char} {r rest : List Char}
    (hw : kind.Writes text (c :: r)) (he : kind.Ends (c :: r) rest) :
    first c (r ++ rest) = (lexeme kind (c :: r), rest) := by
  cases kind with
  | identifier =>
    obtain ⟨⟨hc, hr⟩, hk, -⟩ := hw
    have hn : Keyword.ofWord? (c :: r) = none := by
      rw [Option.eq_none_iff_forall_ne_some]
      exact fun k hk' => hk k (ofWord?_eq_some.mp hk')
    rw [first_word hc, word, takeWhile_run hr he, dropWhile_run hr he]
    simp [hn]
  | keyword k =>
    obtain ⟨hc, hr⟩ := isWord_of_keyword hw.1
    rw [first_word hc, word, takeWhile_run hr he, dropWhile_run hr he]
    simp [ofWord?_eq_some.mpr hw.1]
  | number =>
    rw [first_number (head_of_number hw.1)]
    exact number_of_ends hw.1 he
  | string =>
    obtain ⟨hs, hq⟩ := hw
    rw [List.cons_append, List.cons.injEq] at hs
    obtain ⟨rfl, rfl⟩ := hs
    have hr : ∀ x ∈ (quoteMark :: rest).head?, ¬ inString x := by simp [inString]
    rw [first_string, string, List.append_assoc, List.singleton_append,
      takeWhile_run (inString_of_quotable hq) hr, dropWhile_run (inString_of_quotable hq) hr]
    simp
  | symbol s =>
    rw [first_spelling hw.1.symm]
    rcases r with _ | ⟨d, r⟩
    · have hs := single?_eq_some.mpr hw.1.symm
      cases rest with
      | nil => simp [symbol, symbol.one, hs]
      | cons x rest =>
        have hn : Symbol.pair? c x = none := by
          rw [Option.eq_none_iff_forall_ne_some]
          exact fun s' h => he c x rfl rfl s' (pair?_eq_some.mp h)
        simp [symbol, symbol.one, hs, hn]
    · have hl := length_spelling s
      rw [← hw.1] at hl
      obtain rfl : r = [] :=
        List.length_eq_zero_iff.mp (by simp only [List.length_cons] at hl; omega)
      simp [symbol, pair?_eq_some.mpr hw.1.symm]
  | newline =>
    obtain ⟨rfl, rfl⟩ := List.cons.inj hw.1
    rfl
  | invalid =>
    obtain ⟨⟨d, hd, hs⟩ | ⟨body, hb, hq⟩, -⟩ := hw
    · obtain ⟨rfl, rfl⟩ := List.cons.inj hd
      have hn : Symbol.single? c = none := by
        rw [Option.eq_none_iff_forall_ne_some]
        exact fun s h => hs.2.2.2.2.2.2 s (single?_eq_some.mp h)
      rw [first_stray hs]
      cases rest with
      | nil => simp [symbol, symbol.one, hn]
      | cons x rest =>
        have hp : Symbol.pair? c x = none := by
          rw [Option.eq_none_iff_forall_ne_some]
          exact fun s h => he.2 c x rfl rfl s (pair?_eq_some.mp h)
        simp [symbol, symbol.one, hn, hp]
    · obtain ⟨rfl, rfl⟩ := List.cons.inj hb
      have hr : ∀ x ∈ rest.head?, ¬ inString x := by
        intro x hx
        simp [inString, he.1 (by simp) x hx]
      rw [first_string, string, takeWhile_run (inString_of_quotable hq) hr,
        dropWhile_run (inString_of_quotable hq) hr]
      rcases rest with _ | ⟨x, rest⟩
      · rfl
      · obtain rfl : x = '\n' := he.1 (by simp) x rfl
        rfl
  | endOfInput => exact hw.elim

end Piece

/-- A lexeme that ends where it may is cut off by itself. -/
theorem pieces_of_ends {kind : TokenKind} {text : String} {cs rest : List Char}
    (hw : kind.Writes text cs) (he : kind.Ends cs rest) :
    pieces (cs ++ rest) = .lexeme kind cs :: pieces rest := by
  obtain ⟨c, r, rfl⟩ := List.exists_cons_of_ne_nil (Piece.chars_ne_nil_of_writes hw)
  rw [List.cons_append, pieces, Piece.first_of_ends hw he]

theorem pieces_of_blank {gap : List Char} (h : ∀ c ∈ gap, isGap c) (rest : List Char) :
    pieces (gap ++ rest) = gap.map .gap ++ pieces rest := by
  induction gap with
  | nil => rfl
  | cons c gap ih =>
    have hc : isGap c := h c (by simp)
    have hf : Piece.first c (gap ++ rest) = (.gap c, gap ++ rest) := by simp [Piece.first, hc]
    rw [List.cons_append, pieces, hf, ih fun d hd => h d (by simp [hd])]
    rfl

theorem pieces_of_comment {body : List Char} (h : '\n' ∉ body) (rest : List Char) :
    pieces ('#' :: body ++ '\n' :: rest) =
      .comment ('#' :: body) :: .lexeme .newline ['\n'] :: pieces rest := by
  have hp : (Piece.comment ('#' :: body)).Proper ('\n' :: rest) := ⟨⟨body, rfl, h⟩, by simp⟩
  have hc : Piece.first '#' (body ++ '\n' :: rest) = (.comment ('#' :: body), '\n' :: rest) :=
    Piece.first_of_proper hp rfl
  have hn : Piece.first '\n' rest = (.lexeme .newline ['\n'], rest) := rfl
  rw [List.cons_append, pieces, hc, pieces, hn]

namespace TokenKind

/-- A blank is none of a word and no digit, and it completes no symbol. -/
theorem ends_of_blank {kind : TokenKind} {cs rest : List Char}
    (hq : kind = invalid → quoteMark ∉ cs) (hr : ∀ c ∈ rest.head?, isGap c) :
    kind.Ends cs rest := by
  have blank {p : Char → Prop} (space : p ' ') (tab : p '\t') (carriage : p '\r') :
      ∀ c ∈ rest.head?, p c := by
    intro c hc
    have hc := hr c hc
    simp only [isGap, Bool.or_eq_true, decide_eq_true_eq] at hc
    rcases hc with (rfl | rfl) | rfl
    · exact space
    · exact tab
    · exact carriage
  have pair : ∀ c ∈ rest.head?, ∀ (d : Char) (s : Symbol), s.spelling.toList ≠ [d, c] := by
    refine blank ?_ ?_ ?_ <;> intro d s <;> cases s <;> simp [Symbol.spelling]
  cases kind with
  | identifier => exact blank (by decide) (by decide) (by decide)
  | keyword k => exact blank (by decide) (by decide) (by decide)
  | number =>
    have hpoint : ∀ c ∈ rest.head?, c ≠ '.' := blank (by decide) (by decide) (by decide)
    refine ⟨blank (by decide) (by decide) (by decide), fun _ d r he => ?_⟩
    exact absurd rfl (hpoint '.' (by rw [he]; rfl))
  | symbol s => exact fun c d _ hd s => pair d hd c s
  | invalid => exact ⟨fun h => absurd h (hq rfl), fun c d _ hd s => pair d hd c s⟩
  | string | newline | endOfInput => trivial

/-- A rendering is a lexeme of the kind, unless it has a comment in it. -/
theorem Admits.writes {kind : TokenKind} {text : String} {cs : List Char} (ha : kind.Admits text)
    (hr : kind.Renders text cs) (hn : kind ≠ newline) : kind.Writes text cs := by
  cases kind with
  | identifier =>
    obtain rfl : cs = text.toList := hr
    exact ⟨ha.1, ha.2, rfl⟩
  | keyword k => exact ⟨hr, ha⟩
  | number =>
    obtain rfl : cs = text.toList := hr
    exact ⟨ha, rfl⟩
  | string => exact ⟨hr, ha⟩
  | symbol s =>
    obtain rfl : text = s.spelling := ha
    exact ⟨hr, rfl⟩
  | newline => exact absurd rfl hn
  | invalid =>
    obtain rfl : cs = text.toList := hr
    exact ⟨.inl ha, rfl⟩
  | endOfInput => exact ha

theorem Writes.textOf_eq {kind : TokenKind} {text : String} {cs : List Char}
    (h : kind.Writes text cs) : Piece.textOf kind cs = text := by
  have ofList (he : text.toList = cs) : String.ofList cs = text := by
    rw [← he, String.ofList_toList]
  cases kind with
  | identifier => exact ofList h.2.2
  | keyword k => exact h.2.symm
  | number => exact ofList h.2
  | string =>
    rw [Piece.textOf, h.1]
    simp
  | symbol s =>
    obtain ⟨rfl, rfl⟩ := h
    exact ofList rfl
  | newline => exact ofList h.2
  | invalid => exact ofList h.2
  | endOfInput => exact h.elim

/-- Every text that a kind admits can be written out. -/
theorem exists_renders (kind : TokenKind) (text : String) (ha : kind.Admits text) :
    ∃ cs, kind.Renders text cs := by
  cases kind with
  | keyword k =>
    refine ⟨k.spelling.toList, ?_⟩
    cases k <;> rfl
  | newline => exact ⟨_, .inl rfl⟩
  | identifier | number | string | symbol s | invalid => exact ⟨_, rfl⟩
  | endOfInput => exact ha.elim

end TokenKind

def readings (cs : List Char) : List (TokenKind × String) := (pieces cs).filterMap Piece.reading?

theorem readings_nil : readings [] = [] := by rw [readings, pieces, List.filterMap_nil]

theorem readings_of_blank {gap : List Char} (h : ∀ c ∈ gap, isGap c) (rest : List Char) :
    readings (gap ++ rest) = readings rest := by
  have hg : (gap.map Piece.gap).filterMap Piece.reading? = [] := by
    rw [List.filterMap_map]
    exact List.filterMap_eq_nil_iff.mpr fun _ _ => rfl
  rw [readings, pieces_of_blank h, List.filterMap_append, hg]
  rfl

/-- A token that is written out before a blank, or before the end, is read back. -/
theorem readings_of_renders {kind : TokenKind} {text : String} {cs rest : List Char}
    (ha : kind.Admits text) (hr : kind.Renders text cs) (hb : ∀ c ∈ rest.head?, isGap c) :
    readings (cs ++ rest) = (kind, text) :: readings rest := by
  by_cases hn : kind = .newline
  · subst hn
    obtain rfl : text = "\n" := ha
    rcases hr with rfl | ⟨body, hbody, rfl⟩
    · have hw : TokenKind.newline.Writes "\n" ['\n'] := ⟨rfl, rfl⟩
      rw [readings, pieces_of_ends hw trivial]
      rfl
    · have hp := pieces_of_comment hbody rest
      rw [readings, List.append_assoc, List.singleton_append, hp]
      rfl
  · have hw := ha.writes hr hn
    have hq : kind = .invalid → quoteMark ∉ cs := by
      rintro rfl hm
      obtain rfl : cs = text.toList := hr
      obtain ⟨c, hc, hs⟩ := ha
      rw [hc, List.mem_singleton] at hm
      exact hs.2.2.2.2.2.1 hm.symm
    rw [readings, pieces_of_ends hw (TokenKind.ends_of_blank hq hb), List.filterMap_cons,
      Piece.reading?, hw.textOf_eq]
    rfl

theorem Renders.readings_eq {tokens : List (TokenKind × String)} {cs : List Char}
    (h : Renders tokens cs) (ha : ∀ t ∈ tokens, t.1.Admits t.2) :
    readings cs = tokens := by
  induction h with
  | none => exact readings_nil
  | last lexeme =>
    have hend : ∀ c ∈ ([] : List Char).head?, isGap c := fun c hc => nomatch hc
    have hr := readings_of_renders (ha _ List.mem_cons_self) lexeme hend
    rwa [List.append_nil, readings_nil] at hr
  | @next kind text cs gap rest token tokens lexeme apart blank others ih =>
    have hb : ∀ c ∈ (gap ++ rest).head?, isGap c := by
      obtain ⟨g, gs, rfl⟩ := List.exists_cons_of_ne_nil apart
      intro c hc
      obtain rfl : g = c := by simpa using hc
      exact blank g (by simp)
    have hothers := ih fun t ht => ha t (List.mem_cons_of_mem _ ht)
    rw [List.append_assoc, readings_of_renders (ha _ List.mem_cons_self) lexeme hb,
      readings_of_blank blank, hothers]

theorem exists_renders (tokens : List (TokenKind × String)) (ha : ∀ t ∈ tokens, t.1.Admits t.2) :
    ∃ cs, Renders tokens cs := by
  induction tokens with
  | nil => exact ⟨[], .none⟩
  | cons t tokens ih =>
    obtain ⟨cs, hcs⟩ := t.1.exists_renders t.2 (ha t (by simp))
    cases tokens with
    | nil => exact ⟨cs, .last hcs⟩
    | cons u tokens =>
      obtain ⟨rest, hrest⟩ := ih fun v hv => ha v (by simp [hv])
      exact ⟨cs ++ [' '] ++ rest, .next hcs (by simp) (by simp [isGap]) hrest⟩

/-- Tokens can be written out, and however they are, they are the tokens of the text. -/
theorem tokenize_rendering (tokens : List (TokenKind × String))
    (ha : ∀ t ∈ tokens, t.1.Admits t.2) :
    (∃ cs, Renders tokens cs) ∧
      ∀ cs, Renders tokens cs →
        (tokenize (String.ofList cs)).map Token.reading = tokens ++ [(.endOfInput, "")] := by
  refine ⟨exists_renders tokens ha, fun cs hcs => ?_⟩
  rw [tokenize, map_reading_tokensOf, String.toList_ofList]
  exact congrArg (· ++ _) (hcs.readings_eq ha)

/-- A keyword in mixed case, a mark of comments inside of a string, and a comment after it. -/
theorem tokenize_rendered_line :
    (tokenize "SaY\t \"a#1\" # said\n").map Token.reading =
      [(.keyword .sayWord, "SAY"), (.string, "a#1"), (.newline, "\n"), (.endOfInput, "")] := by
  have ha : ∀ t ∈ [(TokenKind.keyword .sayWord, "SAY"), (.string, "a#1"), (.newline, "\n")],
      t.1.Admits t.2 := by
    simp only [List.forall_mem_cons]
    exact ⟨rfl, by simp [TokenKind.Admits, IsQuotable, quoteMark], rfl, by simp⟩
  have hr : Renders [(.keyword .sayWord, "SAY"), (.string, "a#1"), (.newline, "\n")]
      (['S', 'a', 'Y'] ++ ['\t', ' '] ++
        (['"', 'a', '#', '1', '"'] ++ [' '] ++ ('#' :: [' ', 's', 'a', 'i', 'd'] ++ ['\n']))) :=
    .next (by rfl) (by simp) (by simp [isGap]) <|
      .next (by rfl) (by simp) (by simp [isGap]) <|
        .last (.inr ⟨[' ', 's', 'a', 'i', 'd'], by decide, rfl⟩)
  exact (tokenize_rendering _ ha).2 _ hr

end AgentScript

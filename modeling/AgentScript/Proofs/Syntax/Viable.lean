import AgentScript.Proofs.Syntax.Extent

/-! Where the parser gets stuck in an expression or a command. It rejects the first token that cannot
go on: what stands before it can be continued, and what begins with it as well is rejected too. -/
namespace AgentScript.Grammar

open AgentScript.Parser

variable {stop : Token}

def Terminal.sample (kind : TokenKind) (text : String) : Terminal kind := ⟨⟨kind, text, .start⟩, rfl⟩

def Phrase.sample : (k : Nat) → Phrase k
  | 0 => .primary (Terminal.sample (.keyword .trueWord) "TRUE").val (.boolean .start true) rfl
  | k + 1 => .chain (sample k) .nil

@[simp] theorem Phrase.sample_tokens (k : Nat) :
    (sample k).tokens = [(Terminal.sample (.keyword .trueWord) "TRUE").val] := by
  induction k with
  | zero => rfl
  | succ k ih => simp [sample, Phrase.tokens, Tail.tokens, ih]

def Later.sample : Later := ⟨Phrase.sample 6, by simp [Terminal.sample]⟩

@[simp] theorem Later.sample_tokens : Later.sample.val.tokens = (Phrase.sample 6).tokens := rfl

/-- What is no number and no operator can be read. -/
theorem readable_of_kind {t : Token} (hn : t.kind ≠ .number) (hb : tierOf t.kind = none)
    (hu : unaryOp? t.kind = none) : Readable t := by
  refine ⟨fun h => absurd h hn, fun k op h => ?_, fun op h => ?_⟩
  · have ht : tierOf t.kind = some k := tierOf_eq_some_iff.mpr ⟨op, h⟩
    rw [hb] at ht
    cases ht
  · rw [hu] at h
    cases h

theorem Terminal.sample_readable (kind : TokenKind) (text : String) (hn : kind ≠ .number)
    (hb : tierOf kind = none) (hu : unaryOp? kind = none) : Readable (sample kind text).val :=
  readable_of_kind hn hb hu

theorem Phrase.sample_readable (k : Nat) : ∀ t ∈ (sample k).tokens, Readable t := by
  intro t ht
  rw [sample_tokens, List.mem_singleton] at ht
  rw [ht]
  exact Terminal.sample_readable _ _ (by decide) rfl rfl

/-- Tokens that readable ones continue to a list of a language. -/
def Viable (L : List Token → Prop) (before : List Token) : Prop :=
  ∃ more, (∀ t ∈ more, Readable t) ∧ L (before ++ more)

theorem Viable.intro {L : List Token → Prop} {before more : List Token}
    (hm : ∀ t ∈ more, Readable t) (h : L (before ++ more)) : Viable L before :=
  ⟨more, hm, h⟩

/-- What a part of a text can be continued by continues the text up to there. -/
theorem Viable.within {L L' : List Token → Prop} {before : List Token} (h : Viable L before)
    (head : List Token) {after : List Token} (ha : ∀ t ∈ after, Readable t)
    (hL : ∀ ts, L ts → L' (head ++ (ts ++ after))) : Viable L' (head ++ before) := by
  obtain ⟨more, hm, hl⟩ := h
  refine ⟨more ++ after, fun t ht => ?_, ?_⟩
  · rcases List.mem_append.mp ht with ht | ht
    · exact hm t ht
    · exact ha t ht
  · have hw := hL _ hl
    rwa [List.append_assoc, ← List.append_assoc] at hw

/-- What the end of a text can be continued by continues the text. -/
theorem Viable.behind {L L' : List Token → Prop} {before : List Token} (h : Viable L before)
    (head : List Token) (hL : ∀ ts, L ts → L' (head ++ ts)) : Viable L' (head ++ before) := by
  obtain ⟨more, hm, hl⟩ := h
  exact ⟨more, hm, by rw [List.append_assoc]; exact hL _ hl⟩

theorem Viable.imp {L L' : List Token → Prop} {before : List Token} (h : Viable L before)
    (hL : ∀ ts, L ts → L' ts) : Viable L' before :=
  h.behind [] hL

theorem Viable.whole {L : List Token → Prop} {ts : List Token} (h : L ts) : Viable L ts :=
  ⟨[], by simp, by rwa [List.append_nil]⟩

/-- What begins something viable is viable. -/
theorem Viable.shorten {L : List Token → Prop} (before : List Token) {ts : List Token}
    (h : Viable L (before ++ ts)) (hd : ∀ t ∈ ts, Readable t) : Viable L before := by
  obtain ⟨more, hm, hl⟩ := h
  rw [List.append_assoc] at hl
  exact ⟨ts ++ more, fun t ht => (List.mem_append.mp ht).elim (hd t) (hm t), hl⟩

/-- A procedure of the parser fails on some tokens, whatever closes them. -/
def Refuses {ρ : List Token → Type} (f : Token → (ts : List Token) → Except Trouble (ρ ts))
    (ts : List Token) : Prop :=
  ∀ stop, ∃ t, f stop ts = .error t

/-- The parser has got stuck in some tokens: those up to the rejected one are viable, and together
with it they fail whatever comes next. -/
def Stuck (V F : List Token → Prop) (stop : Token) (ts : List Token) (e : Trouble) : Prop :=
  ∃ before rest wanted, ts = before ++ rest ∧ e = reject wanted stop rest ∧ V before ∧
    ∀ t ∈ rest.head?, ∀ more, F (before ++ t :: more)

namespace Stuck

variable {V F V' F' : List Token → Prop} {ts : List Token} {e : Trouble}

/-- Stuck at the head of some tokens. -/
theorem here {wanted : String} (hv : V []) (hf : ∀ t ∈ ts.head?, ∀ more, F (t :: more)) :
    Stuck V F stop ts (reject wanted stop ts) :=
  ⟨[], ts, wanted, rfl, rfl, hv, hf⟩

/-- Stuck behind some tokens, where `next` holds of all that goes on as they do. -/
theorem past (before : List Token) {rest : List Token} {wanted : String} (hv : V before)
    (hf : ∀ t ∈ rest.head?, ∀ more, F (before ++ t :: more)) :
    Stuck V F stop (before ++ rest) (reject wanted stop rest) :=
  ⟨before, rest, wanted, rfl, rfl, hv, hf⟩

/-- Stuck in a part of a text is stuck in the text. -/
theorem within (h : Stuck V F stop ts e) (head : List Token)
    (hv : ∀ before, before <+: ts → V before → V' (head ++ before))
    (hf : ∀ l, SameHead ts l → F l → F' (head ++ l)) :
    Stuck V' F' stop (head ++ ts) e := by
  obtain ⟨before, rest, wanted, rfl, rfl, hb, hr⟩ := h
  refine ⟨head ++ before, rest, wanted, (List.append_assoc ..).symm, rfl, ?_, fun t ht more => ?_⟩
  · exact hv before (List.prefix_append _ _) hb
  · rw [List.append_assoc]
    exact hf _ ((SameHead.of_mem ht more).append before) (hr t ht more)

/-- Stuck in the first part of a text. -/
theorem first (h : Stuck V F stop ts e) (hv : ∀ before, V before → V' before)
    (hf : ∀ l, SameHead ts l → F l → F' l) : Stuck V' F' stop ts e :=
  h.within [] (fun before _ hb => hv before hb) hf

end Stuck

theorem take_stuck {kind : TokenKind} {wanted : String} {ts : List Token} {e : Trouble}
    (h : take stop kind wanted ts = .error e) :
    e = reject wanted stop ts ∧
      ∀ t ∈ ts.head?, ∀ more, Refuses (take · kind wanted) (t :: more) := by
  cases ts with
  | nil =>
    cases h
    exact ⟨rfl, fun t ht => nomatch ht⟩
  | cons t ts =>
    rw [take] at h
    split at h
    · cases h
    · next hk =>
      cases h
      refine ⟨rfl, fun t' ht' more stop' => ?_⟩
      obtain rfl : t = t' := by simpa using ht'
      exact ⟨_, if_neg hk⟩

/-! Expressions. -/

def IsPhrase (k : Nat) (ts : List Token) : Prop := ∃ d : Phrase k, d.tokens = ts

def IsTail (k : Nat) (ts : List Token) : Prop := ∃ d : Tail k, d.tokens = ts

theorem viable_phrase (k : Nat) : Viable (IsPhrase k) [] :=
  .intro (Phrase.sample_readable k) ⟨_, rfl⟩

theorem viable_group {t : Token} (ht : t.kind = .symbol .openParen) {before : List Token}
    (h : Viable (IsPhrase 6) before) : Viable (IsPhrase 0) (t :: before) := by
  let closing := Terminal.sample (.symbol .closeParen) ")"
  have hc : ∀ t ∈ [closing.val], Readable t := by
    simpa using Terminal.sample_readable (.symbol .closeParen) ")" (by decide) rfl rfl
  refine h.within [t] hc ?_
  rintro ts ⟨d, rfl⟩
  exact ⟨.group ⟨t, ht⟩ d closing, rfl⟩

/-- A step that fails makes the steps after it fail. -/
theorem bind_error {ε α β : Type} {x : Except ε α} {e : ε} (h : x = .error e) (f : α → Except ε β) :
    x >>= f = .error e := by
  rw [h]
  rfl

/-- Where the parser is stuck in a phrase in parentheses. -/
theorem group_stuck {t : Token} (ht : t.kind = .symbol .openParen) {ts : List Token} {e : Trouble}
    (hd : ∀ t ∈ ts, Readable t)
    (inner : ∀ e, tier stop 6 ts = .error e →
      Stuck (Viable (IsPhrase 6)) (Refuses (tier · 6)) stop ts e)
    (h : unary stop (t :: ts) = .error e) :
    Stuck (Viable (IsPhrase 0)) (Refuses unary) stop (t :: ts) e := by
  simp only [unary, ht] at h
  rcases bind_eq_error h with h | ⟨⟨x, r₁, h₁⟩, hp, h⟩
  · refine (inner e h).within [t] (fun before _ hv => viable_group ht hv) fun l _ hf stop' => ?_
    obtain ⟨e', he⟩ := hf stop'
    exact ⟨e', by rw [List.singleton_append, unary, ht]; exact bind_error he _⟩
  obtain ⟨d, rfl, rfl, hc⟩ := tier_derives hd ⟨h₁, hp⟩
  have hr : ∀ t ∈ d.tokens, Readable t := fun t ht => hd t (by simp [ht])
  rcases bind_eq_error h with h | ⟨a, -, h⟩
  · obtain ⟨rfl, hf⟩ := take_stuck h
    have hv : Viable (IsPhrase 0) (t :: d.tokens) := viable_group ht (.whole ⟨d, rfl⟩)
    refine .past (t :: d.tokens) hv fun t' ht' more stop' => ?_
    obtain ⟨_, hp'⟩ : Reads (tier stop' 6 (d.tokens ++ t' :: more)) d.tree (t' :: more) :=
      d.reads hr (hc.congr (.of_mem ht' more))
    obtain ⟨e', he⟩ : ∃ e', take stop' (.symbol .closeParen) "')' after expression"
        (t' :: more) = .error e' := hf t' ht' more stop'
    refine ⟨e', ?_⟩
    rw [List.cons_append, unary, ht]
    simp only [hp', bind, Except.bind]
    rw [he]
  · cases h

mutual

/-- Where the parser is stuck in a phrase, the phrase could go on in another way. -/
theorem unary_stuck {ts : List Token} {e : Trouble} (hd : ∀ t ∈ ts, Readable t)
    (h : unary stop ts = .error e) :
    Stuck (Viable (IsPhrase 0)) (Refuses unary) stop ts e := by
  cases ts with
  | nil =>
    rw [unary] at h
    cases h
    exact .here (viable_phrase 0) (by simp)
  | cons t ts =>
    have whole := h
    have hts : ∀ t ∈ ts, Readable t := fun t ht => hd t (by simp [ht])
    rw [unary] at h
    split at h
    case h_1 _ hk | h_2 _ hk =>
      obtain ⟨op, hu⟩ : ∃ op, unaryOp? t.kind = some op := by rw [hk]; exact ⟨_, rfl⟩
      rcases bind_eq_error h with h | ⟨⟨operand, r₁, h₁⟩, -, h⟩
      · refine (unary_stuck hts h).within [t] (fun before _ hv => ?_) fun l _ hf stop' => ?_
        · refine hv.behind [t] ?_
          rintro ts ⟨d, rfl⟩
          exact ⟨.unary t op hu d, by simp [Phrase.tokens]⟩
        · obtain ⟨e', he⟩ := hf stop'
          exact ⟨e', by rw [List.singleton_append, unary, hk]; exact bind_error he _⟩
      · rcases bind_eq_error h with h | ⟨op', -, h⟩
        · rw [(hd t (by simp)).unary op hu] at h
          cases h
        · cases h
    case h_3 _ hk =>
      obtain ⟨x, hx⟩ := (hd t (by simp)).number hk
      simp [numberOf, hx, bind, Except.bind, pure, Except.pure] at h
    case h_4 | h_5 | h_6 | h_7 => cases h
    case h_8 _ hk => exact group_stuck hk hts (fun _ => tier_stuck hts) whole
    case h_9 =>
      cases h
      refine .here (viable_phrase 0) fun t' ht' more stop' => ?_
      obtain rfl : t = t' := by simpa using ht'
      refine ⟨reject "expression" stop' (t :: more), ?_⟩
      rw [unary]
      split <;> first | rfl | simp_all
termination_by 8 * ts.length

theorem tier_stuck {k : Nat} {ts : List Token} {e : Trouble} (hd : ∀ t ∈ ts, Readable t)
    (h : tier stop k ts = .error e) :
    Stuck (Viable (IsPhrase k)) (Refuses (tier · k)) stop ts e := by
  cases k with
  | zero =>
    rw [tier] at h
    refine (unary_stuck hd h).first (fun _ hv => hv) fun l _ hf stop' => ?_
    obtain ⟨e', he⟩ := hf stop'
    refine ⟨e', ?_⟩
    show tier stop' 0 l = _
    rw [tier]
    exact he
  | succ k =>
    rw [tier] at h
    rcases bind_eq_error h with h | ⟨⟨left, r₁, h₁⟩, hp, h⟩
    · refine (tier_stuck hd h).first (fun before hv => ?_) fun l _ hf stop' => ?_
      · refine hv.imp ?_
        rintro ts ⟨d, rfl⟩
        exact ⟨.chain d .nil, by simp [Phrase.tokens, Tail.tokens]⟩
      · obtain ⟨e', he⟩ := hf stop'
        refine ⟨e', ?_⟩
        show tier stop' (k + 1) l = _
        rw [tier]
        exact bind_error he _
    · obtain ⟨d, rfl, rfl, hc⟩ := tier_derives hd ⟨h₁, hp⟩
      have hr : ∀ t ∈ d.tokens, Readable t := fun t ht => hd t (by simp [ht])
      rcases bind_eq_error h with h | ⟨a, -, h⟩
      · have hd' : ∀ t ∈ r₁, Readable t := fun t ht => hd t (by simp [ht])
        refine (tail_stuck hd' h).within d.tokens (fun before _ hv => ?_) fun l hl hf stop' => ?_
        · refine hv.behind d.tokens ?_
          rintro ts ⟨rest, rfl⟩
          exact ⟨.chain d rest, by simp [Phrase.tokens]⟩
        · obtain ⟨_, hp'⟩ : Reads (tier stop' k (d.tokens ++ l)) d.tree l :=
            d.reads hr (hc.congr hl)
          obtain ⟨e', he⟩ : ∃ e', tail stop' k d.tree l = .error e' := hf d.tree stop'
          refine ⟨e', ?_⟩
          show tier stop' (k + 1) (d.tokens ++ l) = _
          rw [tier]
          simp only [hp', bind, Except.bind]
          rw [he]
      · cases h
termination_by 8 * ts.length + k + 1

theorem tail_stuck {k : Nat} {ts : List Token} {left : Expr} {e : Trouble}
    (hd : ∀ t ∈ ts, Readable t) (h : tail stop k left ts = .error e) :
    Stuck (Viable (IsTail k)) (fun l => ∀ left, Refuses (tail · k left) l) stop ts e := by
  cases ts with
  | nil =>
    rw [tail] at h
    cases h
  | cons t ts =>
    have hts : ∀ t ∈ ts, Readable t := fun t ht => hd t (by simp [ht])
    rw [tail] at h
    split at h
    · next hk =>
      obtain ⟨op, hop⟩ := tierOf_eq_some_iff.mp hk
      rcases bind_eq_error h with h | ⟨⟨right, r₁, h₁⟩, hp, h⟩
      · refine (tier_stuck hts h).within [t] (fun before _ hv => ?_) fun l _ hf left' stop' => ?_
        · refine hv.behind [t] ?_
          rintro ts ⟨d, rfl⟩
          exact ⟨.cons t op hop d .nil, by simp [Tail.tokens]⟩
        · obtain ⟨e', he⟩ := hf stop'
          refine ⟨e', ?_⟩
          show tail stop' k left' (t :: l) = _
          rw [tail, if_pos hk]
          exact bind_error he _
      · obtain ⟨d, rfl, rfl, hc⟩ := tier_derives hts ⟨h₁, hp⟩
        have hr : ∀ t ∈ d.tokens, Readable t := fun t ht => hts t (by simp [ht])
        have hb := (hd t (by simp)).binary k op hop
        rcases bind_eq_error h with h | ⟨op', -, h⟩
        · rw [hb] at h
          cases h
        · rcases bind_eq_error h with h | ⟨a, -, h⟩
          · have hd' : ∀ t ∈ r₁, Readable t := fun t ht => hts t (by simp [ht])
            refine (tail_stuck hd' h).within (t :: d.tokens) (fun before _ hv => ?_)
              fun l hl hf left' stop' => ?_
            · refine hv.behind (t :: d.tokens) ?_
              rintro ts ⟨rest, rfl⟩
              exact ⟨.cons t op hop d rest, by simp [Tail.tokens]⟩
            · obtain ⟨_, hp'⟩ : Reads (tier stop' k (d.tokens ++ l)) d.tree l :=
                d.reads hr (hc.congr hl)
              let left'' := Expr.binary t.loc op left' d.tree
              obtain ⟨e', he⟩ : ∃ e', tail stop' k left'' l = .error e' := hf left'' stop'
              refine ⟨e', ?_⟩
              show tail stop' k left' (t :: (d.tokens ++ l)) = _
              rw [tail, if_pos hk]
              simp only [hp', hb, bind, Except.bind]
              rw [he]
          · cases h
    · cases h
termination_by 8 * ts.length + k

end

/-! Arguments. -/

theorem argument_stuck {command what : String} {ts : List Token} {e : Trouble}
    (hd : ∀ t ∈ ts, Readable t) (h : argument stop command what ts = .error e) :
    Stuck (Viable (IsPhrase 6)) (Refuses (argument · command what)) stop ts e := by
  unfold argument at h
  split at h
  · next hs =>
    refine (tier_stuck hd h).first (fun _ hv => hv) fun l hl hf stop' => ?_
    obtain ⟨e', he⟩ := hf stop'
    refine ⟨e', ?_⟩
    show argument stop' command what l = _
    rw [argument, if_pos (by rwa [hl])]
    exact he
  · next hs =>
    cases h
    refine .here (viable_phrase 6) fun t ht more stop' => ?_
    refine ⟨reject (what ++ " for " ++ command) stop' (t :: more), if_neg ?_⟩
    rwa [List.head?_cons, ← ht]

theorem optionalArgument_stuck {ts : List Token} {e : Trouble} (hd : ∀ t ∈ ts, Readable t)
    (h : optionalArgument stop ts = .error e) :
    Stuck (Viable (IsPhrase 6)) (Refuses optionalArgument) stop ts e := by
  unfold optionalArgument at h
  split at h
  · next hs =>
    rcases bind_eq_error h with h | ⟨a, -, h⟩
    · refine (tier_stuck hd h).first (fun _ hv => hv) fun l hl hf stop' => ?_
      obtain ⟨e', he⟩ := hf stop'
      refine ⟨e', ?_⟩
      rw [optionalArgument, if_pos (by rwa [hl])]
      exact bind_error he _
    · cases h
  · cases h

/-- The lists of a language that may stand where no operator may. -/
def NoMinus (L : List Token → Prop) (ts : List Token) : Prop :=
  L ts ∧ ∀ t ∈ ts.head?, t.kind ≠ .symbol .minus

/-- What stands where no operator may, can go on as something that may stand there. -/
theorem Viable.noMinus {L : List Token → Prop} {before ts : List Token} (h : Viable L before)
    (hp : before <+: ts) (hc : Clear 6 ts) (h₀ : Viable (NoMinus L) []) :
    Viable (NoMinus L) before := by
  cases before with
  | nil => exact h₀
  | cons t before =>
    obtain ⟨more, hm, hl⟩ := h
    refine .intro hm ⟨hl, fun t' ht' hk => ?_⟩
    obtain rfl : t = t' := by simpa using ht'
    obtain ⟨rest, rfl⟩ := hp
    have hn := hc t (by simp) 1 (by omega)
    rw [hk] at hn
    cases hn

theorem later_of_noMinus {ts : List Token} (h : NoMinus (IsPhrase 6) ts) :
    ∃ d : Later, d.val.tokens = ts := by
  obtain ⟨⟨d, rfl⟩, hm⟩ := h
  exact ⟨⟨d, hm⟩, rfl⟩

def IsCoordinates (ts : List Token) : Prop :=
  ∃ (x : Expression) (y z : Later), x.tokens ++ (y.val.tokens ++ z.val.tokens) = ts

theorem Later.sample_readable : ∀ t ∈ Later.sample.val.tokens, Readable t :=
  Phrase.sample_readable 6

theorem viable_later : Viable (NoMinus (IsPhrase 6)) [] :=
  .intro Later.sample_readable ⟨⟨_, rfl⟩, Later.sample.property⟩

theorem readable_append {ts ts' : List Token} (h : ∀ t ∈ ts, Readable t)
    (h' : ∀ t ∈ ts', Readable t) : ∀ t ∈ ts ++ ts', Readable t :=
  fun t ht => (List.mem_append.mp ht).elim (h t) (h' t)

theorem viable_coordinates : Viable (NoMinus IsCoordinates) [] := by
  let s := Later.sample
  have hs := Later.sample_readable
  have hd := readable_append hs (readable_append hs hs)
  exact .intro hd ⟨⟨s.val, s, s, rfl⟩, by simp [Terminal.sample]⟩

def CoordinatesFail (stop : Token) (command : String) (ts : List Token) (e : Trouble) : Prop :=
  argument stop command "x coordinate" ts = .error e ∨
  ∃ x r₁, Reads (argument stop command "x coordinate" ts) x r₁ ∧
    (argument stop command "y coordinate" r₁ = .error e ∨
    ∃ y r₂, Reads (argument stop command "y coordinate" r₁) y r₂ ∧
      argument stop command "z coordinate" r₂ = .error e)

theorem coordinates_stuck {command : String} {ts : List Token} {e : Trouble}
    (hd : ∀ t ∈ ts, Readable t) (h : CoordinatesFail stop command ts e) :
    Stuck (Viable IsCoordinates) (fun l => ∀ stop, ∃ e, CoordinatesFail stop command l e)
      stop ts e := by
  let s := Later.sample
  have hs : ∀ t ∈ s.val.tokens, Readable t := Later.sample_readable
  rcases h with hx | ⟨x, r₁, hx, h⟩
  · refine (argument_stuck hd hx).first (fun before hv => ?_) fun l _ hf stop' => ?_
    · refine hv.within [] (readable_append hs hs) ?_
      rintro ts ⟨d, rfl⟩
      exact ⟨d, s, s, rfl⟩
    · obtain ⟨e', he⟩ := hf stop'
      exact ⟨e', .inl he⟩
  obtain ⟨x, rfl, rfl, hc₁⟩ := argument_derives hd hx
  have hdx : ∀ t ∈ x.tokens, Readable t := fun t ht => hd t (by simp [ht])
  have hd₁ : ∀ t ∈ r₁, Readable t := fun t ht => hd t (by simp [ht])
  rcases h with hy | ⟨y, r₂, hy, hz⟩
  · refine (argument_stuck hd₁ hy).within x.tokens (fun before hp hv => ?_) fun l hl hf stop' => ?_
    · refine (hv.noMinus hp hc₁ viable_later).within x.tokens hs fun ts ht => ?_
      obtain ⟨d, rfl⟩ := later_of_noMinus ht
      exact ⟨x, d, s, rfl⟩
    · obtain ⟨e', he⟩ := hf stop'
      exact ⟨e', .inr ⟨_, l, reads_argument stop' _ _ x hdx (hc₁.congr hl), .inl he⟩⟩
  obtain ⟨y, rfl, rfl, hc₂⟩ := later_derives hd₁ hc₁ hy
  have hdy : ∀ t ∈ y.val.tokens, Readable t := fun t ht => hd₁ t (by simp [ht])
  have hd₂ : ∀ t ∈ r₂, Readable t := fun t ht => hd₁ t (by simp [ht])
  rw [← List.append_assoc]
  refine (argument_stuck hd₂ hz).within (x.tokens ++ y.val.tokens) (fun before hp hv => ?_)
    fun l hl hf stop' => ?_
  · refine (hv.noMinus hp hc₂ viable_later).behind (x.tokens ++ y.val.tokens)
      fun ts ht => ?_
    obtain ⟨d, rfl⟩ := later_of_noMinus ht
    exact ⟨x, y, d, by simp⟩
  · obtain ⟨e', he⟩ := hf stop'
    rw [List.append_assoc]
    exact ⟨e', .inr ⟨_, _, reads_argument stop' _ _ x hdx (clear_later y l 6),
      .inr ⟨_, l, reads_argument stop' _ _ y.val hdy (hc₂.congr hl), he⟩⟩⟩

/-! Commands. -/

/-- A command that goes on from three coordinates fails where one of them cannot be read. -/
theorem coordinates_fail_iff {γ : Type} {command : String} {ts : List Token} {e : Trouble}
    (next : (x : Expr × Rest ts) → (y : Expr × Rest x.2.val) → Expr × Rest y.2.val → γ) :
    (do let x ← argument stop command "x coordinate" ts
        let y ← argument stop command "y coordinate" x.2.val
        let z ← argument stop command "z coordinate" y.2.val
        return next x y z) = .error e ↔ CoordinatesFail stop command ts e := by
  constructor
  · intro h
    rcases bind_eq_error h with h | ⟨⟨x, r₁, h₁⟩, hx, h⟩
    · exact .inl h
    rcases bind_eq_error h with h | ⟨⟨y, r₂, h₂⟩, hy, h⟩
    · exact .inr ⟨x, r₁, ⟨h₁, hx⟩, .inl h⟩
    rcases bind_eq_error h with h | ⟨a, -, h⟩
    · exact .inr ⟨x, r₁, ⟨h₁, hx⟩, .inr ⟨y, r₂, ⟨h₂, hy⟩, h⟩⟩
    · cases h
  · rintro (h | ⟨x, r₁, ⟨h₁, hx⟩, h | ⟨y, r₂, ⟨h₂, hy⟩, h⟩⟩)
    · simp only [h, bind, Except.bind]
    · simp only [hx, h, bind, Except.bind]
    · simp only [hx, hy, h, bind, Except.bind]

theorem goto_fails_iff {loc : Location} {ts : List Token} {e : Trouble} :
    command stop loc .gotoWord ts = .error e ↔ CoordinatesFail stop "goto" ts e :=
  coordinates_fail_iff _

theorem place_fails_iff {loc : Location} {ts : List Token} {e : Trouble} :
    command stop loc .placeWord ts = .error e ↔
      argument stop "place" "item" ts = .error e ∨
      ∃ item r, Reads (argument stop "place" "item" ts) item r ∧
        r.head?.any (startsExpr ·.kind) = true ∧ CoordinatesFail stop "place" r e := by
  constructor
  · intro h
    rcases bind_eq_error h with h | ⟨⟨item, r₀, h₀⟩, hi, h⟩
    · exact .inl h
    refine .inr ⟨item, r₀, ⟨h₀, hi⟩, ?_⟩
    dsimp only at h
    split at h
    · next hs => exact ⟨hs, (coordinates_fail_iff _).mp h⟩
    · cases h
  · rintro (h | ⟨item, r₀, ⟨h₀, hi⟩, hs, h⟩)
    · simp only [command, h, bind, Except.bind]
    · simp only [command, hi, hs, if_true, bind, Except.bind]
      exact (coordinates_fail_iff _).mpr h
def IsArguments (loc : Location) (k : Keyword) (ts : List Token) : Prop :=
  ∃ (a : Arguments) (c : Command), a.tokens = ts ∧ command? loc k a.trees = some c

/-- Where a command takes one argument, it is stuck where the argument is. -/
theorem one_stuck {loc : Location} {k : Keyword} {V F : List Token → Prop} {ts : List Token}
    {e : Trouble} (h : Stuck V F stop ts e) (hv : ∀ before, V before → Viable (IsPhrase 6) before)
    (hc : ∀ x, ∃ c, command? loc k [x] = some c)
    (hf : ∀ l, F l → Refuses (command · loc k) l) :
    Stuck (Viable (IsArguments loc k)) (Refuses (command · loc k)) stop ts e := by
  refine h.first (fun before hb => ?_) fun l _ hl => hf l hl
  refine (hv before hb).imp ?_
  rintro ts ⟨d, rfl⟩
  obtain ⟨c, hc⟩ := hc d.tree
  exact ⟨.cons d [], c, by simp [Arguments.tokens], hc⟩

theorem goto_stuck {loc : Location} {ts : List Token} {e : Trouble} (hd : ∀ t ∈ ts, Readable t)
    (h : command stop loc .gotoWord ts = .error e) :
    Stuck (Viable (IsArguments loc .gotoWord)) (Refuses (command · loc .gotoWord)) stop ts e := by
  refine (coordinates_stuck hd (goto_fails_iff.mp h)).first (fun before hv => ?_)
    fun l _ hf stop' => ?_
  · refine hv.imp ?_
    rintro ts ⟨x, y, z, rfl⟩
    exact ⟨.cons x [y, z], _, by simp [Arguments.tokens], rfl⟩
  · obtain ⟨e', he⟩ := hf stop'
    exact ⟨e', goto_fails_iff.mpr he⟩

theorem place_stuck {loc : Location} {ts : List Token} {e : Trouble} (hd : ∀ t ∈ ts, Readable t)
    (h : command stop loc .placeWord ts = .error e) :
    Stuck (Viable (IsArguments loc .placeWord)) (Refuses (command · loc .placeWord)) stop ts e := by
  rcases place_fails_iff.mp h with h | ⟨item, r, hi, hs, hx⟩
  · refine one_stuck (argument_stuck hd h) (fun _ hv => hv) (fun x => ⟨_, rfl⟩)
      fun l hf stop' => ?_
    obtain ⟨e', he⟩ := hf stop'
    exact ⟨e', place_fails_iff.mpr (.inl he)⟩
  · obtain ⟨i, rfl, rfl, hc⟩ := argument_derives hd hi
    refine (coordinates_stuck (fun t ht => hd t (by simp [ht])) hx).within i.tokens
      (fun before hp hv => ?_) fun l hl hf stop' => ?_
    · refine (hv.noMinus hp hc viable_coordinates).behind i.tokens ?_
      rintro ts ⟨⟨x, y, z, rfl⟩, hm⟩
      obtain ⟨t, ts, ht, -⟩ := x.exists_head
      have hm : ∀ t ∈ x.tokens.head?, t.kind ≠ .symbol .minus := by
        rw [ht] at hm ⊢
        exact hm
      exact ⟨.cons i [⟨x, hm⟩, y, z], _, by simp [Arguments.tokens], rfl⟩
    · obtain ⟨e', he⟩ := hf stop'
      have hi := reads_argument stop' "place" "item" i (fun t ht => hd t (by simp [ht]))
        (hc.congr hl)
      exact ⟨e', place_fails_iff.mpr (.inr ⟨_, l, hi, by rwa [hl], he⟩)⟩

theorem drop_stuck {loc : Location} {ts : List Token} {e : Trouble} (hd : ∀ t ∈ ts, Readable t)
    (h : command stop loc .dropWord ts = .error e) :
    Stuck (Viable (IsArguments loc .dropWord)) (Refuses (command · loc .dropWord)) stop ts e := by
  rcases bind_eq_error h with h | ⟨⟨item, r, h₁⟩, hi, h⟩
  · refine one_stuck (argument_stuck hd h) (fun _ hv => hv) (fun x => ⟨_, rfl⟩)
      fun l hf stop' => ?_
    obtain ⟨e', he⟩ := hf stop'
    exact ⟨e', bind_error he _⟩
  obtain ⟨i, rfl, rfl, hc⟩ := argument_derives hd ⟨h₁, hi⟩
  rcases bind_eq_error h with h | ⟨a, -, h⟩
  · refine (optionalArgument_stuck (fun t ht => hd t (by simp [ht])) h).within i.tokens
      (fun before hp hv => ?_) fun l hl hf stop' => ?_
    · refine (hv.noMinus hp hc viable_later).behind i.tokens fun ts ht => ?_
      obtain ⟨d, rfl⟩ := later_of_noMinus ht
      exact ⟨.cons i [d], _, by simp [Arguments.tokens], rfl⟩
    · obtain ⟨e', he⟩ := hf stop'
      obtain ⟨_, hi⟩ := reads_argument stop' "drop" "item" i (fun t ht => hd t (by simp [ht]))
        (hc.congr hl)
      refine ⟨e', ?_⟩
      show command stop' loc .dropWord (i.tokens ++ l) = _
      simp only [command, hi, he, bind, Except.bind]
  · cases h

theorem command_stuck {loc : Location} {k : Keyword} (hk : k.isCommand = true) {ts : List Token}
    {e : Trouble} (hd : ∀ t ∈ ts, Readable t) (h : command stop loc k ts = .error e) :
    Stuck (Viable (IsArguments loc k)) (Refuses (command · loc k)) stop ts e := by
  cases k with
  | sayWord | attackWord | equipWord | waitWord =>
    rcases bind_eq_error h with h | ⟨a, -, h⟩
    · refine one_stuck (argument_stuck hd h) (fun _ hv => hv) (fun x => ⟨_, rfl⟩)
        fun l hf stop' => ?_
      obtain ⟨e', he⟩ := hf stop'
      exact ⟨e', bind_error he _⟩
    · cases h
  | digWord =>
    rcases bind_eq_error h with h | ⟨a, -, h⟩
    · refine one_stuck (optionalArgument_stuck hd h) (fun _ hv => hv) (fun x => ⟨_, rfl⟩)
        fun l hf stop' => ?_
      obtain ⟨e', he⟩ := hf stop'
      exact ⟨e', bind_error he _⟩
    · cases h
  | gotoWord => exact goto_stuck hd h
  | placeWord => exact place_stuck hd h
  | dropWord => exact drop_stuck hd h
  | _ => cases hk

end AgentScript.Grammar

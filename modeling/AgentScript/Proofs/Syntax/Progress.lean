import AgentScript.Proofs.Except
import AgentScript.Proofs.Syntax.Exact

/-! The parser moves on. A cursor counts how many tokens were taken. Whatever the tokens are, a step
that returns has moved the cursor, never past the first end of input, and a step that fails does so
for a token that it has come to. -/
namespace AgentScript.Parser

/-- The text of a token is not what its kind says: it cannot be converted. -/
inductive Garbled (t : Token) : Trouble → Prop
  | number {e : Trouble} (hk : t.kind = .number) (h : numberOf t = .error e) : Garbled t e
  | binary {e : Trouble} {k : Nat} (hk : tierOf t.kind = some k) (h : binaryOf t = .error e) :
    Garbled t e
  | unary {e : Trouble} (hk : t.kind = .keyword .notWord ∨ t.kind = .symbol .minus)
    (h : unaryOf t = .error e) : Garbled t e

/-- A text that cannot be converted is a fault of its value. -/
theorem Garbled.exists_fault {t : Token} {e : Trouble} (h : Garbled t e) :
    ∃ f, e = .fault f ∧ f.kind = .value := by
  cases h with
  | number _ h =>
    unfold numberOf at h
    split at h
    · cases h
    · cases h
      exact ⟨_, rfl, rfl⟩
  | binary _ h =>
    unfold binaryOf at h
    dsimp only at h
    split at h
    · cases h
    · cases h
      exact ⟨_, rfl, rfl⟩
  | unary _ h =>
    unfold unaryOf at h
    dsimp only at h
    split at h
    · cases h
    · cases h
      exact ⟨_, rfl, rfl⟩

/-- Why the parser fails on some tokens: it rejects the token at hand at a cursor, which is the
closing one behind all of them, or it comes to one whose text cannot be converted. -/
inductive Blames (stop : Token) (ts : List Token) : Trouble → Prop
  | rejected (n : Nat) (hn : n ≤ ts.length) (wanted : String) :
    Blames stop ts (reject wanted stop (ts.drop n))
  | garbled (n : Nat) (hn : n < ts.length) {e : Trouble} (he : Garbled ts[n] e) : Blames stop ts e

/-- A step of the parser returns with the cursor at `n` or further on, though not behind the last
token, or it fails for a token. -/
inductive Moves {α : Type} {P : List Token → Prop} (stop : Token) (ts : List Token) (n : Nat) :
    Except Trouble (α × { r // P r }) → Prop
  | returns {a : α} {m : Nat} {h : P (ts.drop m)} (hn : n ≤ m) (hm : m ≤ ts.length) :
    Moves stop ts n (.ok (a, ⟨ts.drop m, h⟩))
  | fails {e : Trouble} (he : Blames stop ts e) : Moves stop ts n (.error e)

variable {stop : Token} {ts : List Token} {n : Nat}

theorem drop_cases (hn : n ≤ ts.length) :
    ts.drop n = [] ∨ ∃ h : n < ts.length, ts.drop n = ts[n] :: ts.drop (n + 1) := by
  rcases hn.eq_or_lt with rfl | hlt
  · exact .inl List.drop_length
  · exact .inr ⟨hlt, List.drop_eq_getElem_cons hlt⟩

section Steps

variable {α β γ : Type} {P Q : List Token → Prop} {k : Nat}

/-- Where a step leaves the cursor, the next one takes over. -/
theorem Moves.bind {x : Except Trouble (α × { r // P r })}
    {f : α × { r // P r } → Except Trouble (β × { r // Q r })} (hx : Moves stop ts n x)
    (hf : ∀ a m (h : P (ts.drop m)), n ≤ m → m ≤ ts.length →
      Moves stop ts k (f (a, ⟨ts.drop m, h⟩))) :
    Moves stop ts k (x >>= f) := by
  cases hx with
  | returns hn hm => exact hf _ _ _ hn hm
  | fails he => exact .fails he

/-- A conversion or a check leaves the cursor where it is. -/
theorem Moves.after {x : Except Trouble γ} {f : γ → Except Trouble (β × { r // Q r })}
    (hx : ∀ e, x = .error e → Blames stop ts e) (hf : ∀ c, Moves stop ts k (f c)) :
    Moves stop ts k (x >>= f) := by
  cases x with
  | error e => exact .fails (hx e rfl)
  | ok c => exact hf c

/-- A step that returns what is left at a cursor. -/
theorem Moves.leaves {a : α} {l : List Token} {hp : P l} {m : Nat} (hl : ts.drop m = l)
    (hn : n ≤ m) (hm : m ≤ ts.length) :
    Moves stop ts n (.ok (a, ⟨l, hp⟩) : Except Trouble (α × { r // P r })) := by
  subst hl
  exact .returns hn hm

/-- A step that rejects the token at the cursor. -/
theorem Moves.rejects {l : List Token} (hn : n ≤ ts.length) (hl : ts.drop n = l)
    (wanted : String) :
    Moves stop ts k (.error (reject wanted stop l) : Except Trouble (α × { r // P r })) := by
  subst hl
  exact .fails (.rejected n hn wanted)

end Steps

/-! Expressions. -/

theorem take_moves (kind : TokenKind) (wanted : String) (hn : n ≤ ts.length) :
    Moves stop ts (n + 1) (take stop kind wanted (ts.drop n)) := by
  rcases drop_cases hn with hd | ⟨hlt, hd⟩
  · rw [hd, take]
    exact .rejects hn hd wanted
  · rw [hd, take]
    split
    · exact .returns le_rfl hlt
    · exact .rejects hn hd wanted

mutual

theorem unary_moves {n : Nat} (hn : n ≤ ts.length) :
    Moves stop ts (n + 1) (unary stop (ts.drop n)) := by
  rcases drop_cases hn with hd | ⟨hlt, hd⟩
  · rw [hd, unary]
    exact .rejects hn hd _
  · rw [hd, unary]
    split
    case h_1 hk | h_2 hk =>
      apply (unary_moves hlt).bind
      intro operand m h hm hl
      -- the operator is converted behind its operand
      apply Moves.after fun e he => .garbled n hlt (.unary (by simp [hk]) he)
      intro op
      exact .returns (by omega) hl
    case h_3 hk =>
      apply Moves.after fun e he => .garbled n hlt (.number hk he)
      intro x
      exact .returns le_rfl hlt
    case h_4 | h_5 | h_6 | h_7 => exact .returns le_rfl hlt
    case h_8 =>
      apply (tier_moves 6 hlt).bind
      intro e m h hm hl
      apply (take_moves _ _ hl).bind
      intro closing m' h' hm' hl'
      exact .returns (by omega) hl'
    case h_9 => exact .rejects hn hd _
termination_by 8 * (ts.length - n)

theorem tier_moves {n : Nat} (k : Nat) (hn : n ≤ ts.length) :
    Moves stop ts (n + 1) (tier stop k (ts.drop n)) := by
  cases k with
  | zero =>
    rw [tier]
    exact unary_moves hn
  | succ k =>
    rw [tier]
    apply (tier_moves k hn).bind
    intro left m h hm hl
    apply (tail_moves k left hl).bind
    intro e m' h' hm' hl'
    exact .returns (by omega) hl'
termination_by 8 * (ts.length - n) + k + 1

theorem tail_moves {n : Nat} (k : Nat) (left : Expr) (hn : n ≤ ts.length) :
    Moves stop ts n (tail stop k left (ts.drop n)) := by
  rcases drop_cases hn with hd | ⟨hlt, hd⟩
  · rw [hd, tail]
    exact .leaves hd le_rfl hn
  · rw [hd, tail]
    split
    · next hk =>
      apply (tier_moves k hlt).bind
      intro right m h hm hl
      apply Moves.after fun e he => .garbled n hlt (.binary hk he)
      intro op
      apply (tail_moves k _ hl).bind
      intro e m' h' hm' hl'
      exact .returns (by omega) hl'
    · exact .leaves hd le_rfl hn
termination_by 8 * (ts.length - n) + k

end

theorem expr_moves (hn : n ≤ ts.length) : Moves stop ts (n + 1) (expr stop (ts.drop n)) :=
  tier_moves 6 hn

/-! Commands and bindings. -/

theorem argument_moves (command what : String) (hn : n ≤ ts.length) :
    Moves stop ts (n + 1) (argument stop command what (ts.drop n)) := by
  unfold argument
  split
  · exact expr_moves hn
  · exact .rejects hn rfl _

theorem optionalArgument_moves (hn : n ≤ ts.length) :
    Moves stop ts n (optionalArgument stop (ts.drop n)) := by
  unfold optionalArgument
  split
  · apply (expr_moves hn).bind
    intro e m h hm hl
    exact .returns (by omega) hl
  · exact .returns le_rfl hn

theorem command_moves (loc : Location) (k : Keyword) (hn : n ≤ ts.length) :
    Moves stop ts n (command stop loc k (ts.drop n)) := by
  cases k with
  | sayWord | attackWord | equipWord | waitWord =>
    apply (argument_moves _ _ hn).bind
    intro e m h hm hl
    exact .returns (by omega) hl
  | gotoWord =>
    apply (argument_moves _ _ hn).bind
    intro x m₁ h₁ hm₁ hl₁
    apply (argument_moves _ _ hl₁).bind
    intro y m₂ h₂ hm₂ hl₂
    apply (argument_moves _ _ hl₂).bind
    intro z m₃ h₃ hm₃ hl₃
    exact .returns (by omega) hl₃
  | digWord =>
    apply (optionalArgument_moves hn).bind
    intro block m h hm hl
    exact .returns hm hl
  | placeWord =>
    apply (argument_moves _ _ hn).bind
    intro item m₀ h₀ hm₀ hl₀
    dsimp only
    split
    · apply (argument_moves _ _ hl₀).bind
      intro x m₁ h₁ hm₁ hl₁
      apply (argument_moves _ _ hl₁).bind
      intro y m₂ h₂ hm₂ hl₂
      apply (argument_moves _ _ hl₂).bind
      intro z m₃ h₃ hm₃ hl₃
      exact .returns (by omega) hl₃
    · exact .returns (by omega) hl₀
  | dropWord =>
    apply (argument_moves _ _ hn).bind
    intro item m h hm hl
    apply (optionalArgument_moves hl).bind
    intro count m' h' hm' hl'
    exact .returns (by omega) hl'
  | _ => exact .rejects hn rfl _

theorem binding_moves (keyword : String) (hn : n ≤ ts.length) :
    Moves stop ts (n + 1) (binding stop keyword (ts.drop n)) := by
  apply (take_moves _ _ hn).bind
  intro name m₁ h₁ hm₁ hl₁
  apply (take_moves _ _ hl₁).bind
  intro sign m₂ h₂ hm₂ hl₂
  apply (expr_moves hl₂).bind
  intro e m₃ h₃ hm₃ hl₃
  exact .returns (by omega) hl₃

/-! The search for an `else`. -/

/-- From the cursor `n`, the tokens up to `m` are newlines, and what stands at `m` is none. -/
structure LooksTo (ts : List Token) (n m : Nat) : Prop where
  forward : n ≤ m
  within : m ≤ ts.length
  newlines : ∀ i (h : i < ts.length), n ≤ i → i < m → isNewline ts[i]
  stops : ∀ t ∈ ts[m]?, ¬ isNewline t

theorem exists_looksTo (n : Nat) (hn : n ≤ ts.length) :
    ∃ m, LooksTo ts n m ∧ (ts.drop n).dropWhile isNewline = ts.drop m := by
  rcases hn.eq_or_lt with rfl | hlt
  · refine ⟨ts.length, ⟨le_rfl, le_rfl, fun i h _ _ => by omega, by simp⟩, by simp⟩
  · have hd := List.drop_eq_getElem_cons hlt
    by_cases hk : isNewline ts[n]
    · obtain ⟨m, ⟨hm, hl, hw, hs⟩, he⟩ := exists_looksTo (n + 1) hlt
      refine ⟨m, ⟨by omega, hl, fun i h hi hi' => ?_, hs⟩, ?_⟩
      · rcases hi.eq_or_lt with rfl | hi
        · exact hk
        · exact hw i h hi hi'
      · rw [hd, List.dropWhile_cons_of_pos hk, he]
    · refine ⟨n, ⟨le_rfl, hn, fun i h _ _ => by omega, ?_⟩, ?_⟩
      · simpa [hlt] using hk
      · rw [hd, List.dropWhile_cons_of_neg hk]
termination_by ts.length - n

/-- The parser looks for an `else` behind the newlines at the cursor, and goes on behind it. -/
theorem exists_afterElse (hn : n ≤ ts.length) :
    ∃ m, LooksTo ts n m ∧ (afterElse? (ts.drop n)).map (·.val) =
      if ts[m]?.any (·.kind = .keyword .elseWord) then some (ts.drop (m + 1)) else none := by
  obtain ⟨m, hm, he⟩ := exists_looksTo n hn
  refine ⟨m, hm, ?_⟩
  unfold afterElse?
  split
  · next hnil =>
    -- no token is left behind the newlines
    have hl : ts.length ≤ m := List.drop_eq_nil_iff.mp (he.symm.trans hnil)
    rw [List.getElem?_eq_none hl]
    rfl
  · next t r hcons =>
    have hdrop : ts.drop m = t :: r := he.symm.trans hcons
    have hlt : m < ts.length := by
      by_contra hl
      rw [List.drop_eq_nil_iff.mpr (by omega)] at hdrop
      cases hdrop
    obtain ⟨ht, hr⟩ := List.cons.inj ((List.drop_eq_getElem_cons hlt).symm.trans hdrop)
    rw [List.getElem?_eq_getElem hlt, ht, hr, Option.any_some]
    split
    · next hk => rw [if_pos (by simpa using hk)]; rfl
    · next hk => rw [if_neg (by simpa using hk)]; rfl

theorem afterElse_eq_some {r : Rest (ts.drop n)} (hn : n ≤ ts.length)
    (h : afterElse? (ts.drop n) = some r) :
    ∃ m h, n < m ∧ m ≤ ts.length ∧ r = ⟨ts.drop m, h⟩ := by
  obtain ⟨m, hm, he⟩ := exists_afterElse hn
  rw [h, Option.map_some] at he
  split at he
  · next hk =>
    obtain ⟨t, ht, -⟩ := (Option.any_eq_true _ _).mp hk
    have hlt : m < ts.length := (List.getElem?_eq_some_iff.mp ht).1
    have hr : r.val = ts.drop (m + 1) := Option.some.inj he
    exact ⟨m + 1, hr ▸ r.property, Nat.lt_succ_of_le hm.forward, hlt, Subtype.ext hr⟩
  · cases he

/-! Statements and blocks. -/

def block (stop : Token) (wanted owner : String) (ts : List Token) : Step (List Stmt) ts := do
  let brace ← take stop (.symbol .openBrace) wanted ts
  let list ← items stop owner brace.2.val
  return (list.1, ⟨list.2.val, list.2.property.trans brace.2.property⟩)

theorem block_bind {wanted owner : String} {β : Type}
    (f : List Stmt × Rest ts → Except Trouble β) :
    block stop wanted owner ts >>= f =
      take stop (.symbol .openBrace) wanted ts >>= fun brace =>
        items stop owner brace.2.val >>= fun list =>
          f (list.1, ⟨list.2.val, list.2.property.trans brace.2.property⟩) := by
  simp only [block, bind_assoc, pure_bind]

theorem statement_branch {t : Token} (hk : t.kind = .keyword .ifWord) (r : List Token) :
    statement stop (t :: r) = (do
      let condition ← expr stop r
      let yes ← block stop "'\x7b' after if condition" "if condition" condition.2.val
      have hyes : yes.2.val.length < r.length := yes.2.property.trans condition.2.property
      (afterElse? yes.2.val).elim
        (return (.branch t.loc condition.1 (.statements yes.1) none,
          ⟨yes.2.val, hyes.trans (Nat.lt_succ_self _)⟩))
        fun rest => do
          let no ← block stop "'\x7b' after else" "else" rest.val
          have hno : no.2.val.length < r.length :=
            no.2.property.trans (rest.property.trans hyes)
          return (.branch t.loc condition.1 (.statements yes.1) (some (.statements no.1)),
            ⟨no.2.val, hno.trans (Nat.lt_succ_self _)⟩)) := by
  rw [statement]
  simp only [hk]
  apply bind_congr
  intro condition
  rw [block_bind]
  apply bind_congr
  intro brace
  apply bind_congr
  intro yes
  dsimp only
  cases afterElse? yes.2.val with
  | none => rfl
  | some rest =>
    rw [Option.elim_some, block_bind]

theorem statement_loop {t : Token} (hk : t.kind = .keyword .repeatWord) (r : List Token) :
    statement stop (t :: r) = (do
      let count ← expr stop r
      let body ← block stop "'\x7b' after repeat count" "repeat count" count.2.val
      have hbody : body.2.val.length < r.length := body.2.property.trans count.2.property
      return (.loop t.loc count.1 (.statements body.1),
        ⟨body.2.val, hbody.trans (Nat.lt_succ_self _)⟩)) := by
  rw [statement]
  simp only [hk]
  apply bind_congr
  intro count
  rw [block_bind]

theorem endsStatement_blames (inBlock : Bool) (hn : n ≤ ts.length) (e : Trouble)
    (h : endsStatement inBlock stop (ts.drop n) = .error e) : Blames stop ts e := by
  unfold endsStatement at h
  split at h
  · cases h
  · split at h
    · cases h
    · cases h
      exact .rejected n hn _

mutual

theorem statement_moves {n : Nat} (hn : n ≤ ts.length) :
    Moves stop ts (n + 1) (statement stop (ts.drop n)) := by
  rcases drop_cases hn with hd | ⟨hlt, hd⟩
  · rw [hd, statement]
    exact .rejects hn hd _
  · have evaluated : Moves stop ts (n + 1) (expr stop (ts[n] :: ts.drop (n + 1))) := by
      rw [← hd]
      exact expr_moves hn
    by_cases hif : ts[n].kind = .keyword .ifWord
    · rw [hd, statement_branch hif]
      apply (expr_moves hlt).bind
      intro condition m₁ h₁ hm₁ hl₁
      apply (block_moves _ _ hl₁).bind
      intro yes m₂ h₂ hm₂ hl₂
      cases hg : afterElse? (ts.drop m₂) with
      | none => exact .returns (by omega) hl₂
      | some rest =>
        obtain ⟨m₃, h₃, hm₃, hl₃, rfl⟩ := afterElse_eq_some hl₂ hg
        apply (block_moves _ _ hl₃).bind
        intro no m₄ h₄ hm₄ hl₄
        exact .returns (by omega) hl₄
    by_cases hrepeat : ts[n].kind = .keyword .repeatWord
    · rw [hd, statement_loop hrepeat]
      apply (expr_moves hlt).bind
      intro count m₁ h₁ hm₁ hl₁
      apply (block_moves _ _ hl₁).bind
      intro body m₂ h₂ hm₂ hl₂
      exact .returns (by omega) hl₂
    rw [hd, statement]
    split
    case h_1 | h_2 =>
      apply (binding_moves _ hlt).bind
      intro binding m h hm hl
      exact .returns (by omega) hl
    case h_3 hk => exact absurd hk hif
    case h_4 hk => exact absurd hk hrepeat
    case h_5 k _ _ _ _ _ =>
      split
      · apply (command_moves _ k hlt).bind
        intro c m h hm hl
        exact .returns (by omega) hl
      · apply evaluated.bind
        intro e m h hm hl
        exact .returns hm hl
    case h_6 =>
      apply evaluated.bind
      intro e m h hm hl
      exact .returns hm hl
termination_by 2 * (ts.length - n)

theorem items_moves {n : Nat} (owner : String) (hn : n ≤ ts.length) :
    Moves stop ts (n + 1) (items stop owner (ts.drop n)) := by
  rcases drop_cases hn with hd | ⟨hlt, hd⟩
  · rw [hd, items]
    exact .rejects hn hd _
  · have first : Moves stop ts (n + 1) (statement stop (ts[n] :: ts.drop (n + 1))) := by
      rw [← hd]
      exact statement_moves hn
    rw [hd, items]
    split
    · apply (items_moves owner hlt).bind
      intro rest m h hm hl
      exact .returns (by omega) hl
    split
    · exact .returns le_rfl hlt
    · apply first.bind
      intro s m₁ h₁ hm₁ hl₁
      apply Moves.after (endsStatement_blames true hl₁)
      intro _
      apply (items_moves owner hl₁).bind
      intro rest m₂ h₂ hm₂ hl₂
      exact .returns (by omega) hl₂
termination_by 2 * (ts.length - n) + 1

theorem block_moves {n : Nat} (wanted owner : String) (hn : n ≤ ts.length) :
    Moves stop ts (n + 2) (block stop wanted owner (ts.drop n)) := by
  apply (take_moves _ _ hn).bind
  intro brace m₁ h₁ hm₁ hl₁
  apply (items_moves owner hl₁).bind
  intro list m₂ h₂ hm₂ hl₂
  exact .returns (by omega) hl₂
termination_by 2 * (ts.length - n)

end

/-- Where a program cannot be read, a token is to blame. -/
theorem statements_blames {n : Nat} (hn : n ≤ ts.length) {e : Trouble}
    (h : statements stop (ts.drop n) = .error e) : Blames stop ts e := by
  rcases drop_cases hn with hd | ⟨hlt, hd⟩
  · rw [hd, statements] at h
    cases h
  · have first : Moves stop ts (n + 1) (statement stop (ts[n] :: ts.drop (n + 1))) := by
      rw [← hd]
      exact statement_moves hn
    rw [hd, statements] at h
    split at h
    · exact statements_blames hlt h
    rcases bind_eq_error h with hs | ⟨⟨s, r⟩, hs, h⟩
    · rw [hs] at first
      cases first with
      | fails he => exact he
    rw [hs] at first
    cases first with
    | returns hm hl =>
      rcases bind_eq_error h with he | ⟨_, -, h⟩
      · exact endsStatement_blames false hl e he
      rcases bind_eq_error h with hrest | ⟨_, -, h⟩
      · exact statements_blames hl hrest
      · cases h
termination_by ts.length - n

/-! The list that is parsed. -/

/-- The end of input that is put behind some tokens, at the place of the last one. -/
def ending (ts : List Token) : Token :=
  ⟨.endOfInput, "", (ts.getLast?.map (·.loc)).getD .start⟩

/-- The tokens that are parsed: those that are given, and an end of input if they do not end with
one. -/
def closed (ts : List Token) : List Token :=
  if ts.getLast?.any (·.kind = .endOfInput) then ts else ts ++ [ending ts]

theorem split_inner (ts : List Token) : ∀ t ∈ (split ts).1, t.kind ≠ .endOfInput := by
  have hb : (split ts).1 = ts.takeWhile (·.kind ≠ .endOfInput) := by
    unfold split
    dsimp only
    split <;> rfl
  intro t ht
  rw [hb] at ht
  simpa using List.mem_takeWhile_imp ht

/-- What is cut off behind the tokens before the first end of input, if there is one. -/
theorem split_cases (ts : List Token) :
    (∃ after, ts = (split ts).1 ++ (split ts).2 :: after ∧ (split ts).2.kind = .endOfInput) ∨
      split ts = (ts, ending ts) := by
  have hts := List.takeWhile_append_dropWhile (p := (·.kind ≠ .endOfInput)) (l := ts)
  unfold split
  dsimp only
  split
  · next stop after he =>
    rw [he] at hts
    have hk := List.head?_dropWhile_not (·.kind ≠ .endOfInput) ts
    rw [he] at hk
    exact .inl ⟨after, hts.symm, by simpa using hk⟩
  · next he =>
    rw [he, List.append_nil] at hts
    rw [hts]
    exact .inr rfl

theorem split_stop (ts : List Token) : (split ts).2.kind = .endOfInput := by
  rcases split_cases ts with ⟨_, -, hk⟩ | h
  · exact hk
  · rw [h]
    rfl

/-- What is parsed ends at the first end of input. -/
theorem closed_eq (ts : List Token) :
    ∃ after, closed ts = (split ts).1 ++ (split ts).2 :: after := by
  rcases split_cases ts with ⟨after, he, -⟩ | h
  · unfold closed
    split
    · exact ⟨after, he⟩
    · refine ⟨after ++ [ending ts], ?_⟩
      rw [← List.cons_append, ← List.append_assoc, ← he]
  · have hl : ¬ ts.getLast?.any (·.kind = .endOfInput) := by
      intro hany
      obtain ⟨t, ht, hk⟩ := (Option.any_eq_true _ _).mp hany
      have hi := split_inner ts t (by rw [h]; exact List.mem_of_getLast? ht)
      exact hi (by simpa using hk)
    exact ⟨[], by rw [closed, if_neg hl, h]⟩

/-- The token at hand at a cursor is that of the whole list. -/
theorem getElem?_cursor {body after : List Token} (hn : n ≤ body.length) :
    (body ++ stop :: after)[n]? = some ((body.drop n).head?.getD stop) := by
  rcases hn.eq_or_lt with rfl | hlt
  · simp
  · rw [List.getElem?_append_left hlt, List.head?_drop, List.getElem?_eq_getElem hlt]
    rfl

/-- From a cursor, an expression or a statement takes one token at least and a block takes two. The
search for an `else` looks past newlines only. -/
structure Forward (stop : Token) (ts : List Token) (n : Nat) : Prop where
  expression : Moves stop ts (n + 1) (expr stop (ts.drop n))
  statement : Moves stop ts (n + 1) (statement stop (ts.drop n))
  block (wanted owner : String) : Moves stop ts (n + 2) (block stop wanted owner (ts.drop n))
  otherwise : ∃ m, LooksTo ts n m ∧ (afterElse? (ts.drop n)).map (·.val) =
    if ts[m]?.any (·.kind = .keyword .elseWord) then some (ts.drop (m + 1)) else none

theorem forward (hn : n ≤ ts.length) : Forward stop ts n where
  expression := expr_moves hn
  statement := statement_moves hn
  block wanted owner := block_moves wanted owner hn
  otherwise := exists_afterElse hn

/-- Whatever list of tokens is parsed, nothing behind its first end of input counts. At every cursor
up to there a token is at hand, and the parser goes on from it, up to there as well. In the end there
is a program, or a token is rejected at its own place, or the text of one cannot be converted. -/
theorem moves_forward (ts : List Token) :
    ∃ (body : List Token) (stop : Token) (after : List Token),
      split ts = (body, stop) ∧ closed ts = body ++ stop :: after ∧
      stop.kind = .endOfInput ∧ (∀ t ∈ body, t.kind ≠ .endOfInput) ∧
      (∀ more, Program.ofTokens (body ++ stop :: more) = Program.ofTokens ts) ∧
      (∀ n ≤ body.length, (closed ts)[n]? = some ((body.drop n).head?.getD stop) ∧
        Forward stop body n) ∧
      ((∃ list, Program.ofTokens ts = .ok (.ofStatements list)) ∨
        (∃ n t wanted, n ≤ body.length ∧ (closed ts)[n]? = some t ∧
          Program.ofTokens ts = .error (.error (.locatedAt (.unexpected wanted t) t.loc))) ∨
        ∃ n t f, n < body.length ∧ (closed ts)[n]? = some t ∧ Garbled t (.fault f) ∧
          f.kind = .value ∧ Program.ofTokens ts = .error (.fault f)) := by
  obtain ⟨after, hc⟩ := closed_eq ts
  have hk := split_stop ts
  have hb := split_inner ts
  rcases hs : split ts with ⟨body, stop⟩
  rw [hs] at hc hk hb
  have ht : Program.ofTokens ts = (statements stop body).map Program.ofStatements := by
    rw [Program.ofTokens, hs]
  refine ⟨body, stop, after, rfl, hc, hk, hb, fun more => ?_, fun n hn => ⟨?_, forward hn⟩, ?_⟩
  · rw [ht, Program.ofTokens, Grammar.split_append hb ⟨stop, hk⟩ more]
  · rw [hc]
    exact getElem?_cursor hn
  · rw [ht]
    cases hp : statements stop body with
    | ok list => exact .inl ⟨list, rfl⟩
    | error e =>
      cases statements_blames (n := 0) (Nat.zero_le _) hp with
      | rejected n hn wanted =>
        refine .inr (.inl ⟨n, _, wanted, hn, ?_, rfl⟩)
        rw [hc]
        exact getElem?_cursor hn
      | garbled n hn he =>
        obtain ⟨f, rfl, hf⟩ := he.exists_fault
        refine .inr (.inr ⟨n, _, f, hn, ?_, he, hf, rfl⟩)
        rw [hc, List.getElem?_append_left hn, List.getElem?_eq_getElem hn]

/-- Without an end of input, the list ends where its last token stands. -/
example : Program.ofTokens [⟨.keyword .ifWord, "IF", ⟨2, 5⟩⟩] =
    .error (.error (.locatedAt (.unexpected "expression" ⟨.endOfInput, "", ⟨2, 5⟩⟩) ⟨2, 5⟩)) := by
  cbv

/-- Behind the first end of input anything may stand. -/
example : Program.ofTokens [⟨.newline, "", ⟨1, 1⟩⟩, ⟨.endOfInput, "", ⟨2, 1⟩⟩,
    ⟨.number, "one", ⟨2, 2⟩⟩] = .ok (.ofStatements []) := by
  cbv

end AgentScript.Parser

import AgentScript.Proofs.Syntax.Phrase

/-! The arguments of a command. A command ends where its statement ends, and an argument may be left
out there. -/
namespace AgentScript.Grammar

open AgentScript.Parser

variable {stop : Token}

/-! How phrases and statements begin, and what may follow them. -/

theorem Phrase.exists_head : {k : Nat} → (d : Phrase k) →
    ∃ t ts, d.tokens = t :: ts ∧ startsExpr t.kind = true
  | _, .primary t e h => by
    refine ⟨t, [], rfl, ?_⟩
    unfold primary? at h
    split at h
    case h_6 => cases h
    all_goals next hk => rw [hk]; rfl
  | _, .unary t op h operand => by
    refine ⟨t, operand.tokens, rfl, ?_⟩
    unfold unaryOp? at h
    split at h
    case h_3 => cases h
    all_goals next hk => rw [hk]; rfl
  | _, .group opening inner closing => ⟨opening.val, _, rfl, by rw [opening.property]; rfl⟩
  | _, .chain first rest => by
    obtain ⟨t, ts, ht, hs⟩ := first.exists_head
    exact ⟨t, ts ++ rest.tokens, by rw [Phrase.tokens, ht]; rfl, hs⟩

/-- A statement ends before a newline, before a closing brace or at the end of the tokens, and no
`else` stands after it. -/
structure Concludes (ts : List Token) : Prop where
  head : ∀ t ∈ ts.head?, t.kind = .newline ∨ t.kind = .symbol .closeBrace
  noElse : ∀ t ∈ (ts.dropWhile isNewline).head?, t.kind ≠ .keyword .elseWord

/-- The statements of a block or of a program end before a closing brace or at the end of the
tokens. -/
def Stops (ts : List Token) : Prop := ∀ t ∈ ts.head?, t.kind = .symbol .closeBrace

theorem Stops.concludes {ts : List Token} (h : Stops ts) : Concludes ts := by
  refine ⟨fun t ht => .inr (h t ht), ?_⟩
  cases ts with
  | nil => simp
  | cons t ts =>
    have hk := h t rfl
    simp [isNewline, hk]

theorem Concludes.clear {ts : List Token} (h : Concludes ts) (k : Nat) : Clear k ts := by
  apply clear_of_head
  intro t ht
  obtain hk | hk := h.head t ht <;> rw [hk] <;> rfl

theorem Concludes.not_startsExpr {ts : List Token} (h : Concludes ts) :
    ts.head?.any (startsExpr ·.kind) = false := by
  rw [Option.any_eq_false_iff_get]
  intro hs
  obtain hk | hk := h.head _ (Option.get_mem hs) <;> rw [hk] <;> rfl

theorem afterElse?_eq_none {ts : List Token}
    (h : ∀ t ∈ (ts.dropWhile isNewline).head?, t.kind ≠ .keyword .elseWord) :
    afterElse? ts = none := by
  unfold afterElse?
  split
  · rfl
  · next t r he =>
    rw [if_neg (h t (by rw [he]; rfl))]

theorem dropWhile_gap (gap : List (Terminal .newline)) (ts : List Token) :
    (gap.map (·.val) ++ ts).dropWhile isNewline = ts.dropWhile isNewline := by
  apply List.dropWhile_append_of_pos
  intro t ht
  obtain ⟨g, -, rfl⟩ := List.mem_map.mp ht
  simp [isNewline, g.property]

theorem afterElse?_gap (gap : List (Terminal .newline)) (word : Terminal (.keyword .elseWord))
    (ts : List Token) :
    ∃ h, afterElse? (gap.map (·.val) ++ word.val :: ts) = some ⟨ts, h⟩ := by
  have he : (gap.map (·.val) ++ word.val :: ts).dropWhile isNewline = word.val :: ts := by
    rw [dropWhile_gap]
    simp [isNewline, word.property]
  refine ⟨by simp; omega, ?_⟩
  unfold afterElse?
  split
  · next hn =>
    rw [he] at hn
    cases hn
  · next t r hc =>
    rw [he] at hc
    cases hc
    rw [if_pos word.property]

theorem exists_gap {ts r : List Token} {hr : r.length < ts.length}
    (h : afterElse? ts = some ⟨r, hr⟩) :
    ∃ (gap : List (Terminal .newline)) (word : Terminal (.keyword .elseWord)),
      ts = gap.map (·.val) ++ word.val :: r := by
  have hg : ∀ t ∈ ts.takeWhile isNewline, t.kind = .newline := by
    intro t ht
    simpa [isNewline] using List.mem_takeWhile_imp ht
  unfold afterElse? at h
  split at h
  · cases h
  · next t r' he =>
    split at h
    · next hk =>
      cases h
      refine ⟨(ts.takeWhile isNewline).pmap Subtype.mk hg, ⟨t, hk⟩, ?_⟩
      rw [List.map_pmap]
      simp only [List.pmap_eq_map, List.map_id']
      rw [← he, List.takeWhile_append_dropWhile]
    · cases h

/-- A later argument does not go on with the argument before it. -/
theorem clear_later (e : Later) (r : List Token) (k : Nat) : Clear k (e.val.tokens ++ r) := by
  obtain ⟨t, ts, ht, hs⟩ := e.val.exists_head
  have hm := e.property t (by rw [ht]; rfl)
  rw [ht]
  apply clear_cons
  cases hk : tierOf t.kind with
  | none => rfl
  | some k =>
    unfold tierOf at hk
    split at hk <;> simp_all [startsExpr]

/-! Arguments and commands. -/

theorem startsExpr_head (e : Expression) (r : List Token) :
    (e.tokens ++ r).head?.any (startsExpr ·.kind) = true := by
  obtain ⟨t, ts, ht, hs⟩ := e.exists_head
  rw [ht]
  exact hs

theorem reads_argument (stop : Token) (command what : String) (e : Expression)
    (hd : ∀ t ∈ e.tokens, Readable t) {r : List Token} (hr : Clear 6 r) :
    Reads (argument stop command what (e.tokens ++ r)) e.tree r := by
  unfold argument
  rw [if_pos (startsExpr_head e r)]
  exact e.reads hd hr

theorem reads_optionalArgument (stop : Token) (e : Expression)
    (hd : ∀ t ∈ e.tokens, Readable t) {r : List Token} (hr : Clear 6 r) :
    Reads (optionalArgument stop (e.tokens ++ r)) (some e.tree) r := by
  obtain ⟨hl, hp⟩ : Reads (expr stop (e.tokens ++ r)) e.tree r := e.reads hd hr
  refine ⟨by omega, ?_⟩
  rw [optionalArgument, if_pos (startsExpr_head e r), hp]
  rfl

theorem reads_noArgument (stop : Token) {r : List Token} (hr : Concludes r) :
    Reads (optionalArgument stop r) none r := by
  refine ⟨le_rfl, ?_⟩
  rw [optionalArgument, if_neg (by rw [hr.not_startsExpr]; decide)]

/-- Three coordinates, of which the last two are later arguments. -/
theorem reads_coordinates (stop : Token) (command : String) (x : Expression) (y z : Later)
    {r : List Token} (hd : ∀ t ∈ x.tokens ++ (y.val.tokens ++ z.val.tokens), Readable t)
    (hr : Clear 6 r) :
    Reads (argument stop command "x coordinate"
      (x.tokens ++ (y.val.tokens ++ (z.val.tokens ++ r)))) x.tree
      (y.val.tokens ++ (z.val.tokens ++ r)) ∧
    Reads (argument stop command "y coordinate" (y.val.tokens ++ (z.val.tokens ++ r)))
      y.val.tree (z.val.tokens ++ r) ∧
    Reads (argument stop command "z coordinate" (z.val.tokens ++ r)) z.val.tree r := by
  refine ⟨?_, ?_, ?_⟩
  · exact reads_argument _ _ _ x (fun t ht => hd t (by simp [ht])) (clear_later y _ 6)
  · exact reads_argument _ _ _ y.val (fun t ht => hd t (by simp [ht])) (clear_later z _ 6)
  · exact reads_argument _ _ _ z.val (fun t ht => hd t (by simp [ht])) hr

/-! The commands that take more than one argument. -/

theorem reads_goto (stop : Token) (loc : Location) (x : Expression) (y z : Later)
    {r : List Token} (hd : ∀ t ∈ x.tokens ++ (y.val.tokens ++ z.val.tokens), Readable t)
    (hr : Clear 6 r) :
    Reads (command stop loc .gotoWord (x.tokens ++ (y.val.tokens ++ (z.val.tokens ++ r))))
      (.goto loc x.tree y.val.tree z.val.tree) r := by
  obtain ⟨⟨h₁, hx⟩, ⟨h₂, hy⟩, ⟨h₃, hz⟩⟩ := reads_coordinates stop "goto" x y z hd hr
  refine ⟨by omega, ?_⟩
  simp [command, hx, hy, hz, bind, Except.bind, pure, Except.pure]

theorem reads_placeAt (stop : Token) (loc : Location) (item : Expression) (x y z : Later)
    {r : List Token} (hi : ∀ t ∈ item.tokens, Readable t)
    (hd : ∀ t ∈ x.val.tokens ++ (y.val.tokens ++ z.val.tokens), Readable t) (hr : Clear 6 r) :
    Reads (command stop loc .placeWord
      (item.tokens ++ (x.val.tokens ++ (y.val.tokens ++ (z.val.tokens ++ r)))))
      (.place loc item.tree (some x.val.tree) (some y.val.tree) (some z.val.tree)) r := by
  have hs := startsExpr_head x.val (y.val.tokens ++ (z.val.tokens ++ r))
  obtain ⟨h₀, hi⟩ := reads_argument stop "place" "item" item hi
    (clear_later x (y.val.tokens ++ (z.val.tokens ++ r)) 6)
  obtain ⟨⟨h₁, hx⟩, ⟨h₂, hy⟩, ⟨h₃, hz⟩⟩ := reads_coordinates stop "place" x.val y z hd hr
  refine ⟨by omega, ?_⟩
  simp only [command, hi, bind, Except.bind, hs, if_true, hx, hy, hz]
  rfl

theorem reads_dropSome (stop : Token) (loc : Location) (item : Expression) (count : Later)
    {r : List Token} (hi : ∀ t ∈ item.tokens, Readable t)
    (hc : ∀ t ∈ count.val.tokens, Readable t) (hr : Clear 6 r) :
    Reads (command stop loc .dropWord (item.tokens ++ (count.val.tokens ++ r)))
      (.drop loc item.tree (some count.val.tree)) r := by
  obtain ⟨h₁, hi⟩ := reads_argument stop "drop" "item" item hi (clear_later count r 6)
  obtain ⟨h₂, hp⟩ := reads_optionalArgument stop count.val hc hr
  refine ⟨by omega, ?_⟩
  simp [command, hi, hp, bind, Except.bind, pure, Except.pure]

namespace Arguments

theorem eq_nil_of_trees {a : Arguments} (h : a.trees = []) : a = .nil := by
  cases a with
  | nil => rfl
  | cons first later => cases h

theorem eq_cons_of_trees {a : Arguments} {e : Expr} {es : List Expr} (h : a.trees = e :: es) :
    ∃ (first : Expression) (later : List Later), a = .cons first later ∧ first.tree = e ∧
      later.map (·.val.tree) = es := by
  cases a with
  | nil => cases h
  | cons first later =>
    obtain ⟨he, hes⟩ := List.cons.inj h
    exact ⟨first, later, rfl, he, hes⟩

theorem eq_one_of_trees {a : Arguments} {e : Expr} (h : a.trees = [e]) :
    ∃ first : Expression, a = .cons first [] ∧ first.tree = e := by
  obtain ⟨first, later, rfl, he, hl⟩ := eq_cons_of_trees h
  obtain rfl := List.map_eq_nil_iff.mp hl
  exact ⟨first, rfl, he⟩

theorem tokens_one (first : Expression) : (cons first []).tokens = first.tokens :=
  List.append_nil _

/-- The arguments of a command that takes one. -/
theorem reads_one (stop : Token) (command what : String) {a : Arguments} {e : Expr}
    (h : a.trees = [e]) (hd : ∀ t ∈ a.tokens, Readable t) {r : List Token} (hr : Clear 6 r) :
    Reads (argument stop command what (a.tokens ++ r)) e r := by
  obtain ⟨first, rfl, rfl⟩ := eq_one_of_trees h
  rw [tokens_one] at hd ⊢
  exact reads_argument stop command what first hd hr

/-- The parser reads a command as its keyword and its arguments say. -/
theorem reads {loc : Location} {k : Keyword} {c : Command} (a : Arguments)
    (hc : command? loc k a.trees = some c) (hd : ∀ t ∈ a.tokens, Readable t)
    {r : List Token} (hr : Concludes r) : Reads (command stop loc k (a.tokens ++ r)) c r := by
  have hend := hr.clear 6
  unfold command? at hc
  split at hc
  case h_1 _ hn =>
    cases hc
    obtain ⟨hl, hp⟩ := reads_one stop "say" "message" hn hd hend
    refine ⟨by omega, ?_⟩
    simp [command, hp, bind, Except.bind, pure, Except.pure]
  case h_3 _ hn =>
    cases hc
    obtain ⟨hl, hp⟩ := reads_one stop "attack" "target" hn hd hend
    refine ⟨by omega, ?_⟩
    simp [command, hp, bind, Except.bind, pure, Except.pure]
  case h_8 _ hn =>
    cases hc
    obtain ⟨hl, hp⟩ := reads_one stop "equip" "item" hn hd hend
    refine ⟨by omega, ?_⟩
    simp [command, hp, bind, Except.bind, pure, Except.pure]
  case h_11 _ hn =>
    cases hc
    obtain ⟨hl, hp⟩ := reads_one stop "wait" "seconds" hn hd hend
    refine ⟨by omega, ?_⟩
    simp [command, hp, bind, Except.bind, pure, Except.pure]
  case h_2 _ hn =>
    cases hc
    obtain ⟨x, later, rfl, rfl, hl⟩ := eq_cons_of_trees hn
    obtain ⟨y, later, rfl, rfl, hl₁⟩ := List.map_eq_cons_iff.mp hl
    obtain ⟨z, later, rfl, rfl, hl₂⟩ := List.map_eq_cons_iff.mp hl₁
    obtain rfl := List.map_eq_nil_iff.mp hl₂
    have ht : (cons x [y, z]).tokens ++ r =
        x.tokens ++ (y.val.tokens ++ (z.val.tokens ++ r)) := by
      simp [tokens]
    rw [ht]
    exact reads_goto stop loc x y z (fun t ht => hd t (by simpa [tokens] using ht)) hend
  case h_4 _ hn =>
    cases hc
    obtain rfl := eq_nil_of_trees hn
    obtain ⟨hl, hp⟩ := reads_noArgument stop hr
    refine ⟨hl, ?_⟩
    change command stop loc .digWord r = _
    simp [command, hp, bind, Except.bind, pure, Except.pure]
    rfl
  case h_5 _ hn =>
    cases hc
    obtain ⟨first, rfl, rfl⟩ := eq_one_of_trees hn
    rw [tokens_one] at hd ⊢
    obtain ⟨hl, hp⟩ := reads_optionalArgument stop first hd hend
    refine ⟨hl, ?_⟩
    simp [command, hp, bind, Except.bind, pure, Except.pure]
  case h_6 _ hn =>
    cases hc
    obtain ⟨hl, hp⟩ := reads_one stop "place" "item" hn hd hend
    refine ⟨by omega, ?_⟩
    simp [command, hp, hr.not_startsExpr, bind, Except.bind, pure, Except.pure]
  case h_7 _ hn =>
    cases hc
    obtain ⟨item, later, rfl, rfl, hl⟩ := eq_cons_of_trees hn
    obtain ⟨x, later, rfl, rfl, hl₀⟩ := List.map_eq_cons_iff.mp hl
    obtain ⟨y, later, rfl, rfl, hl₁⟩ := List.map_eq_cons_iff.mp hl₀
    obtain ⟨z, later, rfl, rfl, hl₂⟩ := List.map_eq_cons_iff.mp hl₁
    obtain rfl := List.map_eq_nil_iff.mp hl₂
    have ht : (cons item [x, y, z]).tokens ++ r =
        item.tokens ++ (x.val.tokens ++ (y.val.tokens ++ (z.val.tokens ++ r))) := by
      simp [tokens]
    rw [ht]
    refine reads_placeAt stop loc item x y z (fun t ht => hd t (by simp [tokens, ht])) ?_ hend
    intro t ht
    simp only [List.mem_append] at ht
    exact hd t (by simp [tokens, ht])
  case h_9 _ hn =>
    cases hc
    obtain ⟨item, rfl, rfl⟩ := eq_one_of_trees hn
    rw [tokens_one] at hd ⊢
    obtain ⟨h₁, hi⟩ := reads_argument stop "drop" "item" item hd hend
    obtain ⟨h₂, hp⟩ := reads_noArgument stop hr
    refine ⟨by omega, ?_⟩
    simp [command, hi, hp, bind, Except.bind, pure, Except.pure]
  case h_10 _ hn =>
    cases hc
    obtain ⟨item, later, rfl, rfl, hl⟩ := eq_cons_of_trees hn
    obtain ⟨count, later, rfl, rfl, hl₁⟩ := List.map_eq_cons_iff.mp hl
    obtain rfl := List.map_eq_nil_iff.mp hl₁
    have ht : (cons item [count]).tokens ++ r = item.tokens ++ (count.val.tokens ++ r) := by
      simp [tokens]
    rw [ht]
    exact reads_dropSome stop loc item count (fun t ht => hd t (by simp [tokens, ht]))
      (fun t ht => hd t (by simp [tokens, ht])) hend
  case h_12 => cases hc

end Arguments

theorem argument_derives {command what : String} {ts r : List Token} {e : Expr}
    (hd : ∀ t ∈ ts, Readable t) (h : Reads (argument stop command what ts) e r) :
    ∃ d : Expression, ts = d.tokens ++ r ∧ d.tree = e ∧ Clear 6 r := by
  obtain ⟨hr, h⟩ := h
  unfold argument at h
  split at h
  · exact tier_derives hd ⟨hr, h⟩
  · cases h

/-- What is read where no operator may stand does not begin with a minus. -/
theorem later_of_clear {d : Expression} {r : List Token} (h : Clear 6 (d.tokens ++ r)) :
    ∀ t ∈ d.tokens.head?, t.kind ≠ .symbol .minus := by
  intro t ht hk
  have hc := h t (by rw [List.head?_append, ht]; rfl) 1 (by omega)
  rw [hk] at hc
  cases hc

theorem later_derives {command what : String} {ts r : List Token} {e : Expr}
    (hd : ∀ t ∈ ts, Readable t) (hc : Clear 6 ts)
    (h : Reads (argument stop command what ts) e r) :
    ∃ d : Later, ts = d.val.tokens ++ r ∧ d.val.tree = e ∧ Clear 6 r := by
  obtain ⟨d, rfl, rfl, hr⟩ := argument_derives hd h
  exact ⟨⟨d, later_of_clear hc⟩, rfl, rfl, hr⟩

theorem optionalArgument_derives {ts r : List Token} {o : Option Expr}
    (hd : ∀ t ∈ ts, Readable t) (h : Reads (optionalArgument stop ts) o r) :
    (o = none ∧ ts = r) ∨ ∃ d : Expression, o = some d.tree ∧ ts = d.tokens ++ r := by
  obtain ⟨hr, h⟩ := h
  unfold optionalArgument at h
  split at h
  · obtain ⟨⟨e, r', h'⟩, hp, h⟩ := bind_eq_ok h
    cases h
    obtain ⟨d, rfl, rfl, -⟩ := tier_derives hd ⟨h', hp⟩
    exact .inr ⟨d, rfl, rfl⟩
  · cases h
    exact .inl ⟨rfl, rfl⟩

/-- Three coordinates that are read one after the other. -/
theorem coordinates_derive {command : String} {ts r₁ r₂ r₃ : List Token} {x y z : Expr}
    (hd : ∀ t ∈ ts, Readable t)
    (hx : Reads (argument stop command "x coordinate" ts) x r₁)
    (hy : Reads (argument stop command "y coordinate" r₁) y r₂)
    (hz : Reads (argument stop command "z coordinate" r₂) z r₃) :
    ∃ (a : Expression) (b c : Later),
      ts = a.tokens ++ (b.val.tokens ++ (c.val.tokens ++ r₃)) ∧
      a.tree = x ∧ b.val.tree = y ∧ c.val.tree = z := by
  obtain ⟨a, rfl, rfl, ha⟩ := argument_derives hd hx
  obtain ⟨b, rfl, rfl, hb⟩ := later_derives (fun t ht => hd t (by simp [ht])) ha hy
  obtain ⟨c, rfl, rfl, -⟩ := later_derives (fun t ht => hd t (by simp [ht])) hb hz
  exact ⟨a, b, c, rfl, rfl, rfl, rfl⟩

theorem one_derives {command what : String} {ts r : List Token} {e : Expr}
    (hd : ∀ t ∈ ts, Readable t) (h : Reads (argument stop command what ts) e r) :
    ∃ a : Arguments, ts = a.tokens ++ r ∧ a.trees = [e] := by
  obtain ⟨d, rfl, rfl, -⟩ := argument_derives hd h
  exact ⟨.cons d [], by rw [Arguments.tokens_one], rfl⟩

/-- What the parser reads as a command has arguments that its keyword takes. -/
theorem command_derives {loc : Location} {k : Keyword} {ts r : List Token} {c : Command}
    (hd : ∀ t ∈ ts, Readable t) (h : Reads (command stop loc k ts) c r) :
    ∃ a : Arguments, ts = a.tokens ++ r ∧ command? loc k a.trees = some c := by
  obtain ⟨hr, h⟩ := h
  unfold command at h
  split at h
  case h_1 | h_3 | h_6 | h_8 =>
    obtain ⟨⟨e, r', h'⟩, hp, h⟩ := bind_eq_ok h
    cases h
    obtain ⟨a, ht, he⟩ := one_derives hd ⟨h', hp⟩
    exact ⟨a, ht, by rw [he]; rfl⟩
  case h_2 =>
    obtain ⟨⟨x, r₁, h₁⟩, hx, h⟩ := bind_eq_ok h
    obtain ⟨⟨y, r₂, h₂⟩, hy, h⟩ := bind_eq_ok h
    obtain ⟨⟨z, r₃, h₃⟩, hz, h⟩ := bind_eq_ok h
    cases h
    obtain ⟨a, b, c, rfl, rfl, rfl, rfl⟩ := coordinates_derive hd ⟨h₁, hx⟩ ⟨h₂, hy⟩ ⟨h₃, hz⟩
    exact ⟨.cons a [b, c], by simp [Arguments.tokens], rfl⟩
  case h_4 =>
    obtain ⟨⟨o, r', h'⟩, hp, h⟩ := bind_eq_ok h
    cases h
    obtain ⟨rfl, rfl⟩ | ⟨d, rfl, rfl⟩ := optionalArgument_derives hd ⟨h', hp⟩
    · exact ⟨.nil, rfl, rfl⟩
    · exact ⟨.cons d [], by rw [Arguments.tokens_one], rfl⟩
  case h_5 =>
    obtain ⟨⟨item, r₀, h₀⟩, hi, h⟩ := bind_eq_ok h
    obtain ⟨i, rfl, rfl, hc⟩ := argument_derives hd ⟨h₀, hi⟩
    dsimp only at h
    split at h
    · obtain ⟨⟨x, r₁, h₁⟩, hx, h⟩ := bind_eq_ok h
      obtain ⟨⟨y, r₂, h₂⟩, hy, h⟩ := bind_eq_ok h
      obtain ⟨⟨z, r₃, h₃⟩, hz, h⟩ := bind_eq_ok h
      cases h
      obtain ⟨a, b, c, rfl, rfl, rfl, rfl⟩ := coordinates_derive
        (fun t ht => hd t (by simp [ht])) ⟨h₁, hx⟩ ⟨h₂, hy⟩ ⟨h₃, hz⟩
      exact ⟨.cons i [⟨a, later_of_clear hc⟩, b, c], by simp [Arguments.tokens], rfl⟩
    · cases h
      exact ⟨.cons i [], by rw [Arguments.tokens_one], rfl⟩
  case h_7 =>
    obtain ⟨⟨item, r₀, h₀⟩, hi, h⟩ := bind_eq_ok h
    obtain ⟨⟨o, r', h'⟩, hp, h⟩ := bind_eq_ok h
    cases h
    obtain ⟨i, rfl, rfl, hc⟩ := argument_derives hd ⟨h₀, hi⟩
    have hd' : ∀ t ∈ r₀, Readable t := fun t ht => hd t (by simp [ht])
    obtain ⟨rfl, rfl⟩ | ⟨d, rfl, rfl⟩ := optionalArgument_derives hd' ⟨h', hp⟩
    · exact ⟨.cons i [], by rw [Arguments.tokens_one], rfl⟩
    · exact ⟨.cons i [⟨d, later_of_clear hc⟩], by simp [Arguments.tokens], rfl⟩
  case h_9 => cases h

end AgentScript.Grammar

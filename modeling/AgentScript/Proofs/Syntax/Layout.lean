import AgentScript.Proofs.Syntax.Match
import AgentScript.Proofs.Syntax.Places

/-! The layout of sources: blanks, comments, blank lines and letter cases of keywords, all that is lost
when tokens count without their places and a run of newlines counts as one. Sources that differ in
nothing else have derivations of one shape, and so trees that match up to places. -/
namespace AgentScript

open AgentScript.Parser (isNewline)

namespace Token

def face (t : Token) : TokenKind × String := (t.kind, t.text)

/-- Tokens apart from their places. A newline is left out if nothing follows it, or another newline
does. -/
def faces : List Token → List (TokenKind × String)
  | [] => []
  | t :: ts =>
    if t.kind = .newline ∧ (faces ts).head?.all (·.1 = .newline) then faces ts
    else t.face :: faces ts

end Token

/-- What a source writes apart from its layout: its tokens before the end without their places, with
one newline for each run of newlines, and none at the beginning and at the end. -/
def bareSource (source : String) : List (TokenKind × String) :=
  (Token.faces ((tokenize source).filter (·.kind ≠ .endOfInput))).dropWhile (·.1 = .newline)

structure Token.Moved (L : Location → Location → Prop) (t t' : Token) : Prop where
  kind : t'.kind = t.kind
  text : t'.text = t.text
  loc : L t.loc t'.loc

/-- The same tokens with other runs of newlines between them. There may be none at the end, and where
a newline stands, the newlines after it do not matter. -/
inductive Respaced (L : Location → Location → Prop) : List Token → List Token → Prop
  | blank {ts ts' : List Token} (h : ∀ t ∈ ts, t.kind = .newline)
    (h' : ∀ t ∈ ts', t.kind = .newline) : Respaced L ts ts'
  | newline {t t' : Token} {ts ts' : List Token} (hk : t.kind = .newline)
    (hk' : t'.kind = .newline) (h : Respaced L (ts.dropWhile isNewline) (ts'.dropWhile isNewline)) :
    Respaced L (t :: ts) (t' :: ts')
  | token {t t' : Token} {ts ts' : List Token} (hn : t.kind ≠ .newline) (ht : t.Moved L t')
    (h : Respaced L ts ts') : Respaced L (t :: ts) (t' :: ts')

section Newlines

variable {t : Token} {ts : List Token}

theorem dropWhile_newline (hk : t.kind = .newline) :
    (t :: ts).dropWhile isNewline = ts.dropWhile isNewline :=
  List.dropWhile_cons_of_pos (by simpa [isNewline] using hk)

theorem dropWhile_token (hn : t.kind ≠ .newline) : (t :: ts).dropWhile isNewline = t :: ts :=
  List.dropWhile_cons_of_neg (by simpa [isNewline] using hn)

theorem dropWhile_newlines (h : ∀ t ∈ ts, t.kind = .newline) : ts.dropWhile isNewline = [] :=
  List.dropWhile_eq_nil_iff.mpr fun t ht => by simpa [isNewline] using h t ht

theorem dropWhile_of_head (h : ∀ t ∈ ts.head?, t.kind ≠ .newline) :
    ts.dropWhile isNewline = ts := by
  cases ts with
  | nil => rfl
  | cons t ts => exact dropWhile_token (h t rfl)

theorem length_dropWhile_le (ts : List Token) : (ts.dropWhile isNewline).length ≤ ts.length :=
  (List.dropWhile_sublist isNewline).length_le

end Newlines

namespace Token

variable {t : Token} {ts : List Token}

theorem faces_token (hn : t.kind ≠ .newline) : faces (t :: ts) = t.face :: faces ts := by
  rw [faces, if_neg fun h => hn h.1]

/-- A run of newlines has no face if nothing follows it, and otherwise it has that of a newline. -/
theorem faces_newline (hk : t.kind = .newline) (ts : List Token) :
    (faces (t :: ts) = [] ∧ ∀ u ∈ ts, u.kind = .newline) ∨
    ∃ text, faces (t :: ts) = (.newline, text) :: faces (ts.dropWhile isNewline) := by
  induction ts generalizing t with
  | nil =>
    left
    refine ⟨?_, fun _ hu => nomatch hu⟩
    rw [faces, if_pos ⟨hk, rfl⟩]
    rfl
  | cons u us ih =>
    by_cases hu : u.kind = .newline
    · rcases ih hu with ⟨hf, hall⟩ | ⟨text, hf⟩
      · left
        refine ⟨?_, fun v hv => ?_⟩
        · rw [faces, hf, if_pos ⟨hk, rfl⟩]
        · rcases List.mem_cons.mp hv with rfl | hv
          · exact hu
          · exact hall v hv
      · right
        refine ⟨text, ?_⟩
        rw [faces, hf, if_pos ⟨hk, rfl⟩, dropWhile_newline hu]
    · right
      refine ⟨t.text, ?_⟩
      rw [faces, faces_token hu, if_neg fun h => hu (by simpa [face] using h.2), dropWhile_token hu,
        faces_token hu, face, hk]

theorem newlines_of_faces (h : faces ts = []) : ∀ t ∈ ts, t.kind = .newline := by
  cases ts with
  | nil => exact fun _ ht => nomatch ht
  | cons t ts =>
    by_cases hk : t.kind = .newline
    · rcases faces_newline hk ts with ⟨-, hall⟩ | ⟨text, hf⟩
      · intro u hu
        rcases List.mem_cons.mp hu with rfl | hu
        · exact hk
        · exact hall u hu
      · rw [hf] at h
        cases h
    · rw [faces_token hk] at h
      cases h

/-- Newlines at the beginning are left out by their faces. -/
theorem faces_dropWhile (ts : List Token) :
    faces (ts.dropWhile isNewline) = (faces ts).dropWhile (·.1 = .newline) := by
  have rest : ∀ us : List Token,
      (faces (us.dropWhile isNewline)).dropWhile (·.1 = .newline) =
        faces (us.dropWhile isNewline) := by
    intro us
    cases hu : us.dropWhile isNewline with
    | nil => rfl
    | cons u vs =>
      have hn : u.kind ≠ .newline := by
        have hhead := List.head?_dropWhile_not isNewline us
        rw [hu] at hhead
        simpa [isNewline] using hhead
      rw [faces_token hn]
      exact List.dropWhile_cons_of_neg (by simp [face, hn])
  cases ts with
  | nil => rfl
  | cons t ts =>
    by_cases hk : t.kind = .newline
    · rw [dropWhile_newline hk]
      rcases faces_newline hk ts with ⟨hf, hall⟩ | ⟨text, hf⟩
      · rw [hf, dropWhile_newlines hall]
        rfl
      · rw [hf, List.dropWhile_cons_of_pos (by simp), rest]
    · have hr := rest (t :: ts)
      rw [dropWhile_token hk] at hr ⊢
      exact hr.symm

end Token

/-- Tokens with the same faces are respaced. -/
theorem respaced_of_faces {L : Location → Location → Prop} {ts ts' : List Token}
    (h : Token.faces ts = Token.faces ts') (hL : ∀ t ∈ ts, ∀ t' ∈ ts', L t.loc t'.loc) :
    Respaced L ts ts' := by
  match ts with
  | [] => exact .blank (fun _ ht => nomatch ht) (Token.newlines_of_faces h.symm)
  | t :: us =>
    by_cases hk : t.kind = .newline
    · rcases Token.faces_newline hk us with ⟨hf, -⟩ | ⟨text, hf⟩
      · exact .blank (Token.newlines_of_faces hf) (Token.newlines_of_faces (h.symm.trans hf))
      · rw [hf] at h
        match ts' with
        | [] => cases h
        | t' :: us' =>
          by_cases hk' : t'.kind = .newline
          · rcases Token.faces_newline hk' us' with ⟨hf', -⟩ | ⟨text', hf'⟩
            · rw [hf'] at h
              cases h
            · rw [hf'] at h
              have hlt := length_dropWhile_le us
              refine .newline hk hk' (respaced_of_faces (List.cons.inj h).2 fun v hv v' hv' => ?_)
              have hm := (List.dropWhile_sublist isNewline).subset hv
              have hm' := (List.dropWhile_sublist isNewline).subset hv'
              exact hL v (List.mem_cons_of_mem _ hm) v' (List.mem_cons_of_mem _ hm')
          · rw [Token.faces_token hk'] at h
            have hface := congrArg Prod.fst (List.cons.inj h).1
            exact (hk' hface.symm).elim
    · rw [Token.faces_token hk] at h
      match ts' with
      | [] => cases h
      | t' :: us' =>
        by_cases hk' : t'.kind = .newline
        · rcases Token.faces_newline hk' us' with ⟨hf', -⟩ | ⟨text', hf'⟩
          · rw [hf'] at h
            cases h
          · rw [hf'] at h
            exact (hk (congrArg Prod.fst (List.cons.inj h).1)).elim
        · rw [Token.faces_token hk'] at h
          obtain ⟨hface, htail⟩ := List.cons.inj h
          refine .token hk ⟨(congrArg Prod.fst hface).symm, (congrArg Prod.snd hface).symm, ?_⟩ ?_
          · exact hL t List.mem_cons_self t' List.mem_cons_self
          · exact respaced_of_faces htail fun v hv v' hv' =>
              hL v (List.mem_cons_of_mem _ hv) v' (List.mem_cons_of_mem _ hv')
termination_by ts.length
decreasing_by
  · simp only [List.length_cons]
    omega
  · simp only [List.length_cons]
    omega

namespace Respaced

variable {L : Location → Location → Prop} {ts us : List Token}

/-- Newlines at the beginning may be left out on both sides. -/
theorem skip (h : Respaced L ts us) :
    Respaced L (ts.dropWhile isNewline) (us.dropWhile isNewline) := by
  cases h with
  | blank h h' =>
    rw [dropWhile_newlines h, dropWhile_newlines h']
    exact .blank (fun _ ht => nomatch ht) (fun _ ht => nomatch ht)
  | newline hk hk' h =>
    rw [dropWhile_newline hk, dropWhile_newline hk']
    exact h
  | token hn ht h =>
    have hn' := hn
    rw [← ht.kind] at hn'
    rw [dropWhile_token hn, dropWhile_token hn']
    exact .token hn ht h

theorem cons_inv {t : Token} (h : Respaced L (t :: ts) us) (hn : t.kind ≠ .newline) :
    ∃ t' ts', us = t' :: ts' ∧ t.Moved L t' ∧ Respaced L ts ts' := by
  cases h with
  | blank h _ => exact (hn (h t List.mem_cons_self)).elim
  | newline hk _ _ => exact (hn hk).elim
  | token _ ht h => exact ⟨_, _, rfl, ht, h⟩

theorem terminal_inv {kind : TokenKind} {t : Grammar.Terminal kind}
    (h : Respaced L (t.val :: ts) us) (hn : kind ≠ .newline) :
    ∃ (t' : Grammar.Terminal kind) (ts' : List Token), us = t'.val :: ts' ∧
      t.val.Moved L t'.val ∧ Respaced L ts ts' := by
  obtain ⟨t', ts', rfl, ht, h⟩ := h.cons_inv (by rwa [t.property])
  exact ⟨⟨t', ht.kind.trans t.property⟩, ts', rfl, ht, h⟩

/-- A newline faces another one, or only newlines are left on its side and nothing on the other. -/
theorem newline_inv {t : Grammar.Terminal .newline} (h : Respaced L (t.val :: ts) us) :
    (∃ (t' : Grammar.Terminal .newline) (ts' : List Token), us = t'.val :: ts' ∧
      Respaced L (ts.dropWhile isNewline) (ts'.dropWhile isNewline)) ∨
    us = [] ∧ ∀ t ∈ ts, t.kind = .newline := by
  cases h with
  | blank h h' =>
    have hts : ∀ t ∈ ts, t.kind = .newline := fun t ht => h t (List.mem_cons_of_mem _ ht)
    cases us with
    | nil => exact .inr ⟨rfl, hts⟩
    | cons t' ts' =>
      refine .inl ⟨⟨t', h' t' List.mem_cons_self⟩, ts', rfl, ?_⟩
      exact (blank hts fun t ht => h' t (List.mem_cons_of_mem _ ht)).skip
  | newline _ hk' h => exact .inl ⟨⟨_, hk'⟩, _, rfl, h⟩
  | token hn _ _ => exact (hn t.property).elim

end Respaced

namespace Grammar

variable {L : Location → Location → Prop}

/-- The newlines at the beginning of some tokens, and the others. -/
theorem exists_gap_append (ts : List Token) :
    ∃ gap : List (Terminal .newline), ts = gap.map (·.val) ++ ts.dropWhile isNewline := by
  induction ts with
  | nil => exact ⟨[], rfl⟩
  | cons t ts ih =>
    by_cases hk : t.kind = .newline
    · obtain ⟨gap, hg⟩ := ih
      refine ⟨⟨t, hk⟩ :: gap, ?_⟩
      rw [dropWhile_newline hk, List.map_cons, List.cons_append, ← hg]
    · exact ⟨[], (dropWhile_token hk).symm⟩

theorem primary_moved {t t' : Token} {e : Expr} (h : primary? t = some e) (ht : t.Moved L t') :
    ∃ e', primary? t' = some e' ∧ e.Match L Eq e' := by
  unfold primary? at h ⊢
  rw [ht.kind, ht.text]
  split at h
  case h_6 => cases h
  all_goals cases h
  · exact ⟨_, rfl, .number ht.loc _⟩
  · exact ⟨_, rfl, .string ht.loc _⟩
  · exact ⟨_, rfl, .boolean ht.loc true⟩
  · exact ⟨_, rfl, .boolean ht.loc false⟩
  · exact ⟨_, rfl, .reference ht.loc rfl⟩

theorem primary_ne_newline {t : Token} {e : Expr} (h : primary? t = some e) :
    t.kind ≠ .newline := by
  intro hk
  rw [primary?, hk] at h
  cases h

theorem unaryOp_ne_newline {t : Token} {op : UnaryOp} (h : unaryOp? t.kind = some op) :
    t.kind ≠ .newline := by
  intro hk
  rw [hk] at h
  cases h

theorem binaryOp_ne_newline {k : Nat} {t : Token} {op : BinaryOp}
    (h : binaryOp? k t.kind = some op) : t.kind ≠ .newline := by
  intro hk
  rw [hk] at h
  unfold binaryOp? at h
  split at h <;> simp_all

mutual

/-- A phrase can be written with the tokens of a respaced text in the place of its own. -/
theorem Phrase.respaced : {k : Nat} → (d : Phrase k) → {r us : List Token} →
    Respaced L (d.tokens ++ r) us →
    ∃ (d' : Phrase k) (r' : List Token), us = d'.tokens ++ r' ∧ Respaced L r r' ∧
      d.tree.Match L Eq d'.tree ∧ List.Forall₂ (Token.Moved L) d.tokens d'.tokens
  | _, .primary t e h, r, us, hr => by
    obtain ⟨t', ts', rfl, ht, hr⟩ := hr.cons_inv (primary_ne_newline h)
    obtain ⟨e', h', he⟩ := primary_moved h ht
    exact ⟨.primary t' e' h', ts', rfl, hr, he, .cons ht .nil⟩
  | _, .unary t op h operand, r, us, hr => by
    obtain ⟨t', ts', rfl, ht, hr⟩ := hr.cons_inv (unaryOp_ne_newline h)
    obtain ⟨operand', r', rfl, hr, he, hts⟩ := operand.respaced hr
    have h' : unaryOp? t'.kind = some op := by rwa [ht.kind]
    exact ⟨.unary t' op h' operand', r', rfl, hr, .unary ht.loc op he, .cons ht hts⟩
  | _, .group opening inner closing, r, us, hr => by
    simp only [Phrase.tokens, List.cons_append, List.append_assoc, List.nil_append] at hr
    obtain ⟨opening', ts', rfl, ho, hr⟩ := hr.terminal_inv (by decide)
    obtain ⟨inner', r', rfl, hr, he, hts⟩ := inner.respaced hr
    obtain ⟨closing', r'', rfl, hc, hr⟩ := hr.terminal_inv (by decide)
    refine ⟨.group opening' inner' closing', r'', ?_, hr, he, ?_⟩
    · simp [Phrase.tokens]
    · exact .cons ho (List.rel_append hts (.cons hc .nil))
  | _, .chain first rest, r, us, hr => by
    rw [Phrase.tokens, List.append_assoc] at hr
    obtain ⟨first', r', rfl, hr, he, hts⟩ := first.respaced hr
    obtain ⟨rest', r'', rfl, hr, htree, hts'⟩ := rest.respaced hr
    refine ⟨.chain first' rest', r'', ?_, hr, htree he, List.rel_append hts hts'⟩
    rw [Phrase.tokens, List.append_assoc]

theorem Tail.respaced : {k : Nat} → (d : Tail k) → {r us : List Token} →
    Respaced L (d.tokens ++ r) us →
    ∃ (d' : Tail k) (r' : List Token), us = d'.tokens ++ r' ∧ Respaced L r r' ∧
      (∀ {left left' : Expr}, left.Match L Eq left' →
        (d.tree left).Match L Eq (d'.tree left')) ∧
      List.Forall₂ (Token.Moved L) d.tokens d'.tokens
  | _, .nil, r, us, hr => ⟨.nil, us, rfl, hr, id, .nil⟩
  | k, .cons t op h right rest, r, us, hr => by
    simp only [Tail.tokens, List.cons_append, List.append_assoc] at hr
    obtain ⟨t', ts', rfl, ht, hr⟩ := hr.cons_inv (binaryOp_ne_newline h)
    obtain ⟨right', r', rfl, hr, he, hts⟩ := right.respaced hr
    obtain ⟨rest', r'', rfl, hr, htree, hts'⟩ := rest.respaced hr
    have h' : binaryOp? k t'.kind = some op := by rwa [ht.kind]
    refine ⟨.cons t' op h' right' rest', r'', ?_, hr, fun hl => ?_, ?_⟩
    · simp [Tail.tokens]
    · exact htree (.binary ht.loc op hl he)
    · exact .cons ht (List.rel_append hts hts')

end

theorem forall₂_head? {α : Type} {R : α → α → Prop} {as bs : List α} (h : List.Forall₂ R as bs) :
    Option.Rel R as.head? bs.head? := by
  cases h with
  | nil => exact .none
  | cons hab _ => exact .some hab

theorem later_respaced (later : List Later) {r us : List Token}
    (hr : Respaced L (later.flatMap (·.val.tokens) ++ r) us) :
    ∃ (later' : List Later) (r' : List Token), us = later'.flatMap (·.val.tokens) ++ r' ∧
      Respaced L r r' ∧
      List.Forall₂ (Expr.Match L Eq) (later.map (·.val.tree)) (later'.map (·.val.tree)) := by
  induction later generalizing us with
  | nil => exact ⟨[], us, rfl, hr, .nil⟩
  | cons e later ih =>
    rw [List.flatMap_cons, List.append_assoc] at hr
    obtain ⟨d, r', rfl, hr, he, hts⟩ := e.val.respaced hr
    obtain ⟨later', r'', rfl, hr, hes⟩ := ih hr
    have hd : ∀ t ∈ d.tokens.head?, t.kind ≠ .symbol .minus := by
      intro t ht
      have hrel := forall₂_head? hts
      rw [ht] at hrel
      generalize hh : e.val.tokens.head? = head at hrel
      cases hrel with
      | some hm =>
        rw [hm.kind]
        exact e.property _ hh
    refine ⟨⟨d, hd⟩ :: later', r'', ?_, hr, .cons he hes⟩
    rw [List.flatMap_cons, List.append_assoc]

theorem Arguments.respaced (a : Arguments) {r us : List Token}
    (hr : Respaced L (a.tokens ++ r) us) :
    ∃ (a' : Arguments) (r' : List Token), us = a'.tokens ++ r' ∧ Respaced L r r' ∧
      List.Forall₂ (Expr.Match L Eq) a.trees a'.trees := by
  cases a with
  | nil => exact ⟨.nil, us, rfl, hr, .nil⟩
  | cons first later =>
    rw [Arguments.tokens, List.append_assoc] at hr
    obtain ⟨first', r', rfl, hr, he, -⟩ := first.respaced hr
    obtain ⟨later', r'', rfl, hr, hes⟩ := later_respaced later hr
    refine ⟨.cons first' later', r'', ?_, hr, .cons he hes⟩
    rw [Arguments.tokens, List.append_assoc]

/-- Matching arguments make matching commands. -/
theorem command_moved {loc : Location} {k : Keyword} {es es' : List Expr} {c : Command}
    (h : command? loc k es = some c) (hes : List.Forall₂ (Expr.Match L Eq) es es')
    (loc' : Location) : ∃ c', command? loc' k es' = some c' ∧ c.Match L Eq c' := by
  unfold command? at h
  split at h
  case h_12 => cases h
  all_goals cases h
  · obtain - | ⟨hm, - | -⟩ := hes
    exact ⟨_, rfl, .say _ _ hm⟩
  · obtain - | ⟨hx, - | ⟨hy, - | ⟨hz, - | -⟩⟩⟩ := hes
    exact ⟨_, rfl, .goto _ _ hx hy hz⟩
  · obtain - | ⟨ht, - | -⟩ := hes
    exact ⟨_, rfl, .attack _ _ ht⟩
  · obtain - | - := hes
    exact ⟨_, rfl, .dig _ _ .none⟩
  · obtain - | ⟨hb, - | -⟩ := hes
    exact ⟨_, rfl, .dig _ _ (.some hb)⟩
  · obtain - | ⟨hi, - | -⟩ := hes
    exact ⟨_, rfl, .place _ _ hi .none .none .none⟩
  · obtain - | ⟨hi, - | ⟨hx, - | ⟨hy, - | ⟨hz, - | -⟩⟩⟩⟩ := hes
    exact ⟨_, rfl, .place _ _ hi (.some hx) (.some hy) (.some hz)⟩
  · obtain - | ⟨hi, - | -⟩ := hes
    exact ⟨_, rfl, .equip _ _ hi⟩
  · obtain - | ⟨hi, - | -⟩ := hes
    exact ⟨_, rfl, .drop _ _ hi .none⟩
  · obtain - | ⟨hi, - | ⟨hc, - | -⟩⟩ := hes
    exact ⟨_, rfl, .drop _ _ hi (.some hc)⟩
  · obtain - | ⟨hs, - | -⟩ := hes
    exact ⟨_, rfl, .wait _ _ hs⟩

theorem head_closing (closing : Terminal (.symbol .closeBrace)) {r : List Token} :
    ∀ t ∈ (closing.val :: r).head?, t.kind ≠ .newline := by
  rintro _ ⟨⟩
  rw [closing.property]
  decide

/-- Newlines may stand before statements. -/
theorem Items.behind (gap : List (Terminal .newline)) (d : Items) :
    ∃ d' : Items, d'.tokens = gap.map (·.val) ++ d.tokens ∧ d'.trees = d.trees := by
  induction gap with
  | nil => exact ⟨d, rfl, rfl⟩
  | cons t gap ih =>
    obtain ⟨d', ht, htrees⟩ := ih
    refine ⟨.newline t d', ?_, htrees⟩
    rw [Items.tokens, ht, List.map_cons, List.cons_append]

/-- Newlines may stand after statements. -/
theorem Items.before (gap : List (Terminal .newline)) :
    (d : Items) → ∃ d' : Items, d'.tokens = d.tokens ++ gap.map (·.val) ∧ d'.trees = d.trees
  | .newline t rest => by
    obtain ⟨d', ht, htrees⟩ := rest.before gap
    refine ⟨.newline t d', ?_, htrees⟩
    rw [Items.tokens, ht, Items.tokens, List.cons_append]
  | .line s t rest => by
    obtain ⟨d', ht, htrees⟩ := rest.before gap
    refine ⟨.line s t d', ?_, ?_⟩
    · simp [Items.tokens, ht]
    · exact congrArg (s.tree :: ·) htrees
  | .last s => by
    cases gap with
    | nil => exact ⟨.last s, (List.append_nil _).symm, rfl⟩
    | cons t gap =>
      obtain ⟨d', ht, htrees⟩ := Items.behind gap .nil
      refine ⟨.line s t d', ?_, ?_⟩
      · simp [Items.tokens, ht]
      · exact congrArg (s.tree :: ·) htrees
  | .nil => by
    obtain ⟨d', ht, htrees⟩ := Items.behind gap .nil
    refine ⟨d', ?_, htrees⟩
    rw [ht, Items.tokens, List.append_nil, List.nil_append]

/-- There is no statement where only newlines are. -/
theorem Items.trees_of_newlines : (d : Items) → (∀ t ∈ d.tokens, t.kind = .newline) → d.trees = []
  | .nil, _ => rfl
  | .newline t rest, h => rest.trees_of_newlines fun u hu => h u (List.mem_cons_of_mem _ hu)
  | .last s, h => by
    obtain ⟨t, ts, ht, -, hn, -⟩ := s.exists_head
    exact (hn (h t (by simp [Items.tokens, ht]))).elim
  | .line s _ _, h => by
    obtain ⟨t, ts, ht, -, hn, -⟩ := s.exists_head
    exact (hn (h t (by simp [Items.tokens, ht]))).elim

/-- Statements begin with no newline. -/
theorem Statement.dropWhile_tokens (s : Statement) (r : List Token) :
    (s.tokens ++ r).dropWhile isNewline = s.tokens ++ r := by
  obtain ⟨t, ts, ht, -, hn, -⟩ := s.exists_head
  rw [ht, List.cons_append, dropWhile_token hn]

mutual

/-- A statement can be written with the tokens of a respaced text in the place of its own: one case
for each construct. -/
theorem Statement.respaced : (d : Statement) → {r us : List Token} →
    Respaced L (d.tokens ++ r) us →
    ∃ (d' : Statement) (r' : List Token), us = d'.tokens ++ r' ∧ Respaced L r r' ∧
      d.tree.Match L Eq d'.tree
  | .declare word name sign value, r, us, hr => by
    obtain ⟨word', ts₁, rfl, hw, hr⟩ := hr.terminal_inv (by decide)
    obtain ⟨name', ts₂, rfl, hn, hr⟩ := hr.terminal_inv (by decide)
    obtain ⟨sign', ts₃, rfl, hs, hr⟩ := hr.terminal_inv (by decide)
    obtain ⟨value', r', rfl, hr, he, -⟩ := value.respaced hr
    refine ⟨.declare word' name' sign' value', r', rfl, hr, .declare hw.loc ?_ he⟩
    rw [hn.text]
  | .assign word name sign value, r, us, hr => by
    obtain ⟨word', ts₁, rfl, hw, hr⟩ := hr.terminal_inv (by decide)
    obtain ⟨name', ts₂, rfl, hn, hr⟩ := hr.terminal_inv (by decide)
    obtain ⟨sign', ts₃, rfl, hs, hr⟩ := hr.terminal_inv (by decide)
    obtain ⟨value', r', rfl, hr, he, -⟩ := value.respaced hr
    refine ⟨.assign word' name' sign' value', r', rfl, hr, .assign hw.loc ?_ he⟩
    rw [hn.text]
  | .branch word condition opening yes closing, r, us, hr => by
    simp only [Statement.tokens, List.cons_append, List.append_assoc, List.nil_append] at hr
    obtain ⟨word', ts₁, rfl, hw, hr⟩ := hr.terminal_inv (by decide)
    obtain ⟨condition', ts₂, rfl, hr, he, -⟩ := condition.respaced hr
    obtain ⟨opening', ts₃, rfl, -, hr⟩ := hr.terminal_inv (by decide)
    obtain ⟨yes', ts₄, rfl, hr, hy⟩ := yes.respaced (head_closing closing) hr.skip
    obtain ⟨closing', r', rfl, -, hr⟩ := hr.terminal_inv (by decide)
    refine ⟨.branch word' condition' opening' yes' closing', r', ?_, hr, ?_⟩
    · simp [Statement.tokens]
    · exact .branch hw.loc he (.statements hy) .none
  | .choice word condition opening yes closing gap otherwise opening₂ no closing₂, r, us, hr => by
    simp only [Statement.tokens, List.cons_append, List.append_assoc, List.nil_append] at hr
    obtain ⟨word', ts₁, rfl, hw, hr⟩ := hr.terminal_inv (by decide)
    obtain ⟨condition', ts₂, rfl, hr, he, -⟩ := condition.respaced hr
    obtain ⟨opening', ts₃, rfl, -, hr⟩ := hr.terminal_inv (by decide)
    obtain ⟨yes', ts₄, rfl, hr, hy⟩ := yes.respaced (head_closing closing) hr.skip
    obtain ⟨closing', ts₅, rfl, -, hr⟩ := hr.terminal_inv (by decide)
    obtain ⟨gap', hgap⟩ := exists_gap_append ts₅
    have hskip := hr.skip
    rw [dropWhile_gap, dropWhile_token (by rw [otherwise.property]; decide)] at hskip
    obtain ⟨otherwise', ts₆, hts₆, -, hr⟩ := hskip.terminal_inv (by decide)
    rw [hts₆] at hgap
    obtain ⟨opening₂', ts₇, rfl, -, hr⟩ := hr.terminal_inv (by decide)
    obtain ⟨no', ts₈, rfl, hr, hn⟩ := no.respaced (head_closing closing₂) hr.skip
    obtain ⟨closing₂', r', rfl, -, hr⟩ := hr.terminal_inv (by decide)
    refine ⟨.choice word' condition' opening' yes' closing' gap' otherwise' opening₂' no' closing₂',
      r', ?_, hr, ?_⟩
    · simp [Statement.tokens, hgap]
    · exact .branch hw.loc he (.statements hy) (.some (.statements hn))
  | .loop word count opening body closing, r, us, hr => by
    simp only [Statement.tokens, List.cons_append, List.append_assoc, List.nil_append] at hr
    obtain ⟨word', ts₁, rfl, hw, hr⟩ := hr.terminal_inv (by decide)
    obtain ⟨count', ts₂, rfl, hr, he, -⟩ := count.respaced hr
    obtain ⟨opening', ts₃, rfl, -, hr⟩ := hr.terminal_inv (by decide)
    obtain ⟨body', ts₄, rfl, hr, hb⟩ := body.respaced (head_closing closing) hr.skip
    obtain ⟨closing', r', rfl, -, hr⟩ := hr.terminal_inv (by decide)
    refine ⟨.loop word' count' opening' body' closing', r', ?_, hr, ?_⟩
    · simp [Statement.tokens]
    · exact .loop hw.loc he (.statements hb)
  | .command word k arguments c hk hc, r, us, hr => by
    obtain ⟨word', ts₁, rfl, hw, hr⟩ := hr.cons_inv (by rw [hk]; exact nofun)
    obtain ⟨arguments', r', rfl, hr, hes⟩ := arguments.respaced hr
    obtain ⟨c', hc', hcc⟩ := command_moved hc hes word'.loc
    have hk' : word'.kind = .keyword k := hw.kind.trans hk
    exact ⟨.command word' k arguments' c' hk' hc', r', rfl, hr, .command hw.loc hcc⟩
  | .evaluate e, r, us, hr => by
    obtain ⟨e', r', rfl, hr, he, hts⟩ := Phrase.respaced e hr
    refine ⟨.evaluate e', r', rfl, hr, .evaluate ?_ he⟩
    obtain ⟨t, ts, ht⟩ := List.exists_cons_of_ne_nil e.tokens_ne_nil
    obtain ⟨t', ts', ht'⟩ := List.exists_cons_of_ne_nil e'.tokens_ne_nil
    rw [ht, ht'] at hts
    cases hts with
    | cons hm _ =>
      rw [ht, ht']
      exact hm.loc

/-- Statements can be written with the tokens of a respaced text, whatever newlines it begins with. -/
theorem Items.respaced : (d : Items) → {r us : List Token} →
    (∀ t ∈ r.head?, t.kind ≠ .newline) →
    Respaced L ((d.tokens ++ r).dropWhile isNewline) (us.dropWhile isNewline) →
    ∃ (d' : Items) (r' : List Token), us = d'.tokens ++ r' ∧ Respaced L r r' ∧
      List.Forall₂ (Stmt.Match L Eq) d.trees d'.trees
  | .nil, r, us, hh, hr => by
    obtain ⟨gap, hgap⟩ := exists_gap_append us
    obtain ⟨d', ht, htrees⟩ := Items.behind gap .nil
    rw [Items.tokens, List.nil_append, dropWhile_of_head hh] at hr
    refine ⟨d', us.dropWhile isNewline, ?_, hr, ?_⟩
    · rw [ht, Items.tokens, List.append_nil]
      exact hgap
    · rw [htrees]
      exact .nil
  | .newline t rest, r, us, hh, hr => by
    rw [Items.tokens, List.cons_append, dropWhile_newline t.property] at hr
    exact rest.respaced hh hr
  | .last s, r, us, hh, hr => by
    obtain ⟨gap, hgap⟩ := exists_gap_append us
    rw [Items.tokens, s.dropWhile_tokens] at hr
    obtain ⟨s', r', hus, hr, hs⟩ := s.respaced hr
    obtain ⟨d', ht, htrees⟩ := Items.behind gap (.last s')
    refine ⟨d', r', ?_, hr, ?_⟩
    · rw [ht, Items.tokens, List.append_assoc, ← hus]
      exact hgap
    · rw [htrees]
      exact .cons hs .nil
  | .line s t rest, r, us, hh, hr => by
    obtain ⟨gap, hgap⟩ := exists_gap_append us
    rw [Items.tokens, List.append_assoc, s.dropWhile_tokens] at hr
    obtain ⟨s', r', hus, hr, hs⟩ := s.respaced hr
    rcases hr.newline_inv with ⟨t', ts', rfl, hnext⟩ | ⟨rfl, hall⟩
    · obtain ⟨rest', r'', rfl, hr, hrest⟩ := rest.respaced hh hnext
      obtain ⟨d', ht, htrees⟩ := Items.behind gap (.line s' t' rest')
      refine ⟨d', r'', ?_, hr, ?_⟩
      · rw [hus] at hgap
        simp [ht, Items.tokens, hgap]
      · rw [htrees]
        exact .cons hs hrest
    · -- Only newlines follow the statement, and the other text ends with it.
      have hnone : rest.trees = [] :=
        rest.trees_of_newlines fun u hu => hall u (List.mem_append_left _ hu)
      obtain ⟨d', ht, htrees⟩ := Items.behind gap (.last s')
      refine ⟨d', [], ?_, ?_, ?_⟩
      · rw [hus] at hgap
        simp [ht, Items.tokens, hgap]
      · exact .blank (fun u hu => hall u (List.mem_append_right _ hu)) fun _ hu => nomatch hu
      · rw [htrees]
        change List.Forall₂ _ (s.tree :: rest.trees) [s'.tree]
        rw [hnone]
        exact .cons hs .nil

end

/-- Statements for a whole text, where newlines at both ends do not matter. -/
theorem Items.respaced_whole (d : Items) {ts : List Token}
    (h : Respaced L (d.tokens.dropWhile isNewline) (ts.dropWhile isNewline)) :
    ∃ d' : Items, d'.tokens = ts ∧ List.Forall₂ (Stmt.Match L Eq) d.trees d'.trees := by
  have hend : ∀ t ∈ ([] : List Token).head?, t.kind ≠ .newline := fun _ ht => nomatch ht
  rw [← List.append_nil d.tokens] at h
  obtain ⟨d', r, rfl, hr, htrees⟩ := d.respaced hend h
  have hnewlines : r.dropWhile isNewline = [] := by
    cases hr with
    | blank _ h' => exact dropWhile_newlines h'
  obtain ⟨gap, hgap⟩ := exists_gap_append r
  rw [hnewlines, List.append_nil] at hgap
  obtain ⟨d'', ht, htrees'⟩ := Items.before gap d'
  refine ⟨d'', ?_, ?_⟩
  · rw [ht, hgap]
  · rwa [htrees']

end Grammar

namespace Program

def Across (source source' : String) (l l' : Location) : Prop :=
  l.InSource source ∧ l'.InSource source'

theorem exists_match_of_bareSource {source source' : String}
    (h : bareSource source = bareSource source') {p : Program} (hp : ofSource source = .ok p) :
    ∃ p', ofSource source' = .ok p' ∧ p.Match (Across source source') Eq p' := by
  obtain ⟨body, stop, hbody, -, hinner⟩ := Grammar.exists_readable source
  obtain ⟨body', stop', hbody', -, hinner'⟩ := Grammar.exists_readable source'
  have hbare : ∀ {source : String} {body : List Token} {stop : Grammar.Terminal .endOfInput},
      tokenize source = body ++ [stop.val] → (∀ t ∈ body, t.kind ≠ .endOfInput) →
      bareSource source = Token.faces (body.dropWhile isNewline) := by
    intro source body stop hb hi
    have hfilter : (body ++ [stop.val]).filter (·.kind ≠ .endOfInput) = body := by
      rw [List.filter_append, List.filter_eq_self.mpr (by simpa using hi),
        List.filter_cons_of_neg (by simp [stop.property]), List.filter_nil, List.append_nil]
    rw [bareSource, hb, hfilter, Token.faces_dropWhile]
  obtain ⟨d, hd, rfl⟩ := (Grammar.accepts_tokenize source p).mp hp
  obtain ⟨hitems, -⟩ := List.append_inj' (hd.trans hbody) rfl
  have hfaces : Token.faces (body.dropWhile isNewline) =
      Token.faces (body'.dropWhile isNewline) := by
    rw [← hbare hbody hinner, ← hbare hbody' hinner', h]
  have hrespaced : Respaced (Across source source') (body.dropWhile isNewline)
      (body'.dropWhile isNewline) := by
    refine respaced_of_faces hfaces fun t ht t' ht' => ⟨⟨t, ?_, rfl⟩, ⟨t', ?_, rfl⟩⟩
    · rw [hbody]
      exact List.mem_append_left _ ((List.dropWhile_sublist isNewline).subset ht)
    · rw [hbody']
      exact List.mem_append_left _ ((List.dropWhile_sublist isNewline).subset ht')
  rw [← hitems] at hrespaced
  obtain ⟨items', hitems', htrees⟩ := d.items.respaced_whole hrespaced
  refine ⟨.ofStatements items'.trees, ?_, .program _ _ (.statements htrees)⟩
  refine (Grammar.accepts_tokenize source' _).mpr ⟨⟨items', stop'⟩, ?_, rfl⟩
  rw [Grammar.Derivation.tokens, hitems', hbody']

/-- Sources that differ in their layout only are both accepted, with trees that match up to places, or
both rejected. -/
theorem ofSource_layout {source source' : String} (h : bareSource source = bareSource source') :
    (∃ p p', ofSource source = .ok p ∧ ofSource source' = .ok p' ∧
      p.Match (Across source source') Eq p') ∨
    ∃ t t', ofSource source = .error t ∧ ofSource source' = .error t' := by
  cases hp : ofSource source with
  | ok p =>
    obtain ⟨p', hp', hm⟩ := exists_match_of_bareSource h hp
    exact .inl ⟨p, p', rfl, hp', hm⟩
  | error t =>
    cases hp' : ofSource source' with
    | ok p' =>
      obtain ⟨p, hok, -⟩ := exists_match_of_bareSource h.symm hp'
      rw [hp] at hok
      cases hok
    | error t' => exact .inr ⟨t, t', rfl, rfl⟩

end Program

end AgentScript

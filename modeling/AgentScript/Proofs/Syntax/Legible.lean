import AgentScript.Proofs.Json.RoundTrip
import AgentScript.Proofs.Syntax.Places
import AgentScript.Syntax.Codec

/-! The tree of a source is legible data, if the numbers of the source read back and its lines and
columns are not beyond all bounds. -/
namespace AgentScript

open Number

structure Location.Short (l : Location) : Prop where
  line : digitCount l.line.natAbs ≤ digitLimit
  column : digitCount l.column.natAbs ≤ digitLimit

structure Token.Legible (t : Token) : Prop where
  short : t.loc.Short
  number : t.kind = .number → ∀ x ∈ readFloat? t.text, ReadsBack x

namespace Json

theorem legible_nodeTree (kind : String) {loc : Location} (hl : loc.Short)
    {fields : List (String × Json)}
    (hk : ("type" :: "line" :: "column" :: fields.map (·.1)).Nodup)
    (hf : ∀ f ∈ fields, f.2.Legible) : (nodeTree kind loc fields).Legible := by
  refine .obj hk ?_
  simp only [List.forall_mem_cons]
  exact ⟨.str kind, .int hl.line, .int hl.column, hf⟩

end Json

open Json (legible_nodeTree)

namespace Grammar

theorem primary_legible {t : Token} {e : Expr} (h : primary? t = some e) (ht : t.Legible) :
    e.toTree.Legible := by
  have hzero : ReadsBack 0 := fun _ => by decide +kernel
  unfold primary? at h
  split at h
  case h_6 => cases h
  all_goals cases h
  all_goals refine legible_nodeTree _ ht.short (by simp) ?_
  all_goals simp only [List.forall_mem_cons, List.not_mem_nil, false_imp_iff, implies_true,
    and_true]
  · next hk =>
    refine .real ?_
    cases hx : readFloat? t.text with
    | none => exact hzero
    | some x => exact ht.number hk x hx
  · exact .str _
  · exact .bool _
  · exact .bool _
  · exact .str _

mutual

theorem Phrase.legible : {k : Nat} → (d : Phrase k) → (∀ t ∈ d.tokens, t.Legible) →
    d.tree.toTree.Legible
  | _, .primary t e h, ht => primary_legible h (ht t (by simp [Phrase.tokens]))
  | _, .unary t op _ operand, ht => by
    have ih := operand.legible fun t hm => ht t (by simp [Phrase.tokens, hm])
    refine legible_nodeTree _ (ht t (by simp [Phrase.tokens])).short (by simp) ?_
    simp [Json.Legible.str, ih]
  | _, .group _ inner _, ht => inner.legible fun t hm => ht t (by simp [Phrase.tokens, hm])
  | _, .chain first rest, ht => by
    have ih := first.legible fun t hm => ht t (by simp [Phrase.tokens, hm])
    exact rest.legible ih fun t hm => ht t (by simp [Phrase.tokens, hm])

theorem Tail.legible : {k : Nat} → {left : Expr} → (d : Tail k) → left.toTree.Legible →
    (∀ t ∈ d.tokens, t.Legible) → (d.tree left).toTree.Legible
  | _, _, .nil, hl, _ => hl
  | _, left, .cons t op _ right rest, hl, ht => by
    have ih := right.legible fun t hm => ht t (by simp [Tail.tokens, hm])
    have hnode : (Expr.binary t.loc op left right.tree).toTree.Legible := by
      refine legible_nodeTree _ (ht t (by simp [Tail.tokens])).short (by simp) ?_
      simp [Json.Legible.str, hl, ih]
    exact rest.legible hnode fun t hm => ht t (by simp [Tail.tokens, hm])

end

theorem Arguments.legible (a : Arguments) (ht : ∀ t ∈ a.tokens, t.Legible) :
    ∀ e ∈ a.trees, e.toTree.Legible := by
  cases a with
  | nil => exact fun _ he => nomatch he
  | cons first later =>
    intro e he
    rcases List.mem_cons.mp he with rfl | he
    · exact first.legible fun t hm => ht t (by simp [Arguments.tokens, hm])
    · obtain ⟨d, hd, rfl⟩ := List.mem_map.mp he
      refine d.val.legible fun t hm => ht t ?_
      exact List.mem_append_right _ (List.mem_flatMap.mpr ⟨d, hd, hm⟩)

theorem command_legible {loc : Location} {k : Keyword} {es : List Expr} {c : Command}
    (h : command? loc k es = some c) (hl : loc.Short) (he : ∀ e ∈ es, e.toTree.Legible) :
    c.toTree.Legible := by
  unfold command? at h
  split at h
  all_goals cases h
  all_goals refine legible_nodeTree _ hl (by simp) ?_
  all_goals simp only [List.forall_mem_cons, List.not_mem_nil, false_imp_iff, implies_true,
    and_true] at he ⊢
  all_goals first
    | exact he
    | exact .null
    | exact ⟨he, .null⟩
    | exact ⟨he, .null, .null, .null⟩

theorem statements_legible {list : List Stmt} (h : ∀ s ∈ list, s.toTree.Legible) :
    (Body.statements list).toTree.Legible := by
  rw [Body.toTree]
  refine .arr ?_
  induction list with
  | nil => exact fun _ hv => nomatch hv
  | cons s list ih =>
    rw [Stmt.toTrees, List.forall_mem_cons]
    exact ⟨h s (by simp), ih fun s' hs' => h s' (List.mem_cons_of_mem s hs')⟩

mutual

theorem Statement.legible : (d : Statement) → (∀ t ∈ d.tokens, t.Legible) → d.tree.toTree.Legible
  | .declare word name sign value, ht => by
    have ih := Phrase.legible value fun t hm => ht t (by simp [Statement.tokens, hm])
    rw [Statement.tree, Stmt.toTree]
    refine legible_nodeTree _ (ht _ (by simp [Statement.tokens])).short (by simp) ?_
    simp [Label.toTree, Json.Legible.str, ih]
  | .assign word name sign value, ht => by
    have ih := Phrase.legible value fun t hm => ht t (by simp [Statement.tokens, hm])
    rw [Statement.tree, Stmt.toTree]
    refine legible_nodeTree _ (ht _ (by simp [Statement.tokens])).short (by simp) ?_
    simp [Label.toTree, Json.Legible.str, ih]
  | .branch word condition opening yes closing, ht => by
    have ihc := Phrase.legible condition fun t hm => ht t (by simp [Statement.tokens, hm])
    have ihy := statements_legible
      (yes.legible fun t hm => ht t (by simp [Statement.tokens, hm]))
    rw [Statement.tree, Stmt.toTree]
    refine legible_nodeTree _ (ht _ (by simp [Statement.tokens])).short (by simp) ?_
    simp [Json.Legible.null, ihc, ihy]
  | .choice word condition opening yes closing gap otherwise opening' no closing', ht => by
    have ihc := Phrase.legible condition fun t hm => ht t (by simp [Statement.tokens, hm])
    have ihy := statements_legible
      (yes.legible fun t hm => ht t (by simp [Statement.tokens, hm]))
    have ihn := statements_legible
      (no.legible fun t hm => ht t (by simp [Statement.tokens, hm]))
    rw [Statement.tree, Stmt.toTree]
    refine legible_nodeTree _ (ht _ (by simp [Statement.tokens])).short (by simp) ?_
    simp [ihc, ihy, ihn]
  | .loop word count opening body closing, ht => by
    have ihc := Phrase.legible count fun t hm => ht t (by simp [Statement.tokens, hm])
    have ihb := statements_legible
      (body.legible fun t hm => ht t (by simp [Statement.tokens, hm]))
    rw [Statement.tree, Stmt.toTree]
    refine legible_nodeTree _ (ht _ (by simp [Statement.tokens])).short (by simp) ?_
    simp [ihc, ihb]
  | .command word k arguments c hk hc, ht => by
    have hl := (ht word (by simp [Statement.tokens])).short
    have iha := arguments.legible fun t hm => ht t (by simp [Statement.tokens, hm])
    rw [Statement.tree, Stmt.toTree]
    refine legible_nodeTree _ hl (by simp) ?_
    simp [command_legible hc hl iha]
  | .evaluate e, ht => by
    have ih := Phrase.legible e ht
    obtain ⟨t, r, hr⟩ := List.exists_cons_of_ne_nil (Phrase.tokens_ne_nil e)
    have hl : ((e.tokens.head?.map Token.loc).getD Location.start).Short := by
      rw [hr]
      exact (ht t (by simp [Statement.tokens, hr])).short
    rw [Statement.tree, Stmt.toTree]
    refine legible_nodeTree _ hl (by simp) ?_
    simp [ih]

theorem Items.legible : (d : Items) → (∀ t ∈ d.tokens, t.Legible) →
    ∀ s ∈ d.trees, s.toTree.Legible
  | .nil, _ => fun _ hs => nomatch hs
  | .newline t rest, ht => by
    have ih := rest.legible fun t hm => ht t (by simp [Items.tokens, hm])
    exact ih
  | .last s, ht => by
    have ih := s.legible ht
    intro s' hs
    rw [List.mem_singleton.mp hs]
    exact ih
  | .line s t rest, ht => by
    have ih := s.legible fun t hm => ht t (by simp [Items.tokens, hm])
    have ih' := rest.legible fun t hm => ht t (by simp [Items.tokens, hm])
    intro s' hs
    rcases List.mem_cons.mp hs with rfl | hs
    · exact ih
    · exact ih' s' hs

end

end Grammar

theorem digitCount_le {n : Nat} (h : n < 10 ^ digitLimit) : digitCount n ≤ digitLimit :=
  (Nat.length_toDigits_le_iff (by decide) (by decide)).mpr h

theorem Location.past_short {cs : List Char} (h : cs.length + 1 < 10 ^ digitLimit) :
    (Location.past cs).Short := by
  have hline : cs.count '\n' ≤ cs.length := List.count_le_length
  have hcolumn : (cs.reverse.takeWhile (· ≠ '\n')).length ≤ cs.length := by
    have := (List.takeWhile_sublist (· ≠ '\n') (l := cs.reverse)).length_le
    rwa [List.length_reverse] at this
  constructor
  · refine digitCount_le ?_
    simp only [Location.past]
    omega
  · refine digitCount_le ?_
    simp only [Location.past]
    omega

def ReadsBack (source : String) : Prop :=
  ∀ t ∈ tokenize source, t.kind = .number → ∀ x ∈ readFloat? t.text, Number.ReadsBack x

instance : DecidablePred ReadsBack := fun _ => inferInstanceAs (Decidable (∀ t ∈ _, _))

theorem Program.legible {source : String} {p : Program} (h : Program.ofSource source = .ok p)
    (hl : source.length + 1 < 10 ^ digitLimit) (hn : ReadsBack source) : p.toTree.Legible := by
  obtain ⟨d, hd, rfl⟩ := (Grammar.accepts_tokenize source p).mp h
  have htoken : ∀ t ∈ d.items.tokens, t.Legible := by
    intro t ht
    have hm : t ∈ tokenize source := hd ▸ List.mem_append_left _ ht
    obtain ⟨cs, hcs, hloc⟩ := Location.InSource.exists_past ⟨t, hm, rfl⟩
    have hle := hcs.length_le
    rw [String.length_toList] at hle
    exact ⟨hloc ▸ Location.past_short (by omega), hn t hm⟩
  have hbody := Grammar.statements_legible (d.items.legible htoken)
  have hstart : Location.start.Short := ⟨by decide, by decide⟩
  exact legible_nodeTree "Program" hstart (by simp) (by simp [hbody])

end AgentScript

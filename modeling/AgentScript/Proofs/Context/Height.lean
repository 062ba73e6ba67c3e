import AgentScript.Proofs.Context.Action
import AgentScript.Proofs.Context.Overlap

/-! Which frame an operation works on. Names are looked up and assigned to in the innermost frame that
binds them and defined in a frame that the scope tells, and what is written there is put into that
frame alone. Frames are told by their height: the global frame is at height zero, the innermost one is
the highest. -/
namespace AgentScript

theorem modify_length_append {α : Type} (l r : List α) (a : α) (g : α → α) :
    (l ++ a :: r).modify l.length g = l ++ g a :: r := by
  induction l with
  | nil => rfl
  | cons x l ih =>
    rw [List.cons_append, List.length_cons, List.modify_succ_cons, ih, List.cons_append]

theorem modify_reverse {α : Type} (inner outer : List α) (a : α) (g : α → α) :
    (inner ++ a :: outer).reverse.modify outer.length g = (inner ++ g a :: outer).reverse := by
  simp only [List.reverse_append, List.reverse_cons, List.append_assoc, List.singleton_append]
  have hlen : outer.length = outer.reverse.length := List.length_reverse.symm
  rw [hlen, modify_length_append]

namespace Context

variable {c c' : Context} {name : String}

theorem reverse_frames (c : Context) : c.frames.reverse = c.globals :: c.locals.reverse := by
  simp [frames]

theorem length_frames (c : Context) : c.frames.length = c.depth + 1 := by
  simp [frames, depth]

@[simp] theorem bindingAt?_zero (c : Context) (name : String) :
    c.bindingAt? 0 name = c.globals.find? name := by
  simp [bindingAt?, reverse_frames]

theorem bindingAt?_succ (c : Context) (height : Nat) (name : String) :
    c.bindingAt? (height + 1) name = c.locals.reverse[height]?.bind (·.find? name) := by
  rw [bindingAt?, reverse_frames, List.getElem?_cons_succ]

theorem bindingAt?_of_depth_lt {height : Nat} (h : c.depth < height) :
    c.bindingAt? height name = none := by
  have hlen : c.frames.reverse.length ≤ height := by
    rw [List.length_reverse, length_frames]
    omega
  simp [bindingAt?, List.getElem?_eq_none hlen]

section Split

variable {inner outer : List Frame} {f : Frame} (h : c.frames = inner ++ f :: outer)
include h

theorem bindingAt?_split : c.bindingAt? outer.length name = f.find? name := by
  unfold bindingAt?
  rw [h, List.reverse_append, List.reverse_cons, List.append_assoc,
    List.getElem?_append_right (by simp)]
  simp

theorem bindingAt?_inner {height : Nat} (hh : outer.length < height)
    (hi : ∀ g ∈ inner, g.find? name = none) : c.bindingAt? height name = none := by
  unfold bindingAt?
  rw [h, List.reverse_append, List.reverse_cons, List.append_assoc,
    List.getElem?_append_right (by simp; omega), List.length_reverse]
  obtain ⟨i, rfl⟩ : ∃ i, height = outer.length + 1 + i := ⟨height - (outer.length + 1), by omega⟩
  have hsub : outer.length + 1 + i - outer.length = i + 1 := by omega
  rw [hsub, List.singleton_append, List.getElem?_cons_succ]
  cases hg : inner.reverse[i]? with
  | none => rfl
  | some g => exact hi g (List.mem_reverse.mp (List.mem_of_getElem? hg))

end Split

/-- What a name means: the innermost frame that binds it is at that height and binds it so. -/
structure Means (c : Context) (name : String) (height : Nat) (b : Binding) : Prop where
  bound : c.bindingAt? height name = some b
  innermost : ∀ h, height < h → c.bindingAt? h name = none

theorem Means.unique {height height' : Nat} {b b' : Binding} (h : c.Means name height b)
    (h' : c.Means name height' b') : height' = height ∧ b' = b := by
  have hheight : height' = height := by
    rcases Nat.lt_trichotomy height height' with hlt | heq | hlt
    · exact nomatch (h.innermost _ hlt).symm.trans h'.bound
    · exact heq.symm
    · exact nomatch (h'.innermost _ hlt).symm.trans h.bound
  subst hheight
  exact ⟨rfl, Option.some.inj (h'.bound.symm.trans h.bound)⟩

theorem means_of_split {inner outer : List Frame} {f : Frame} {b : Binding}
    (h : c.frames = inner ++ f :: outer) (hf : f.find? name = some b)
    (hi : ∀ g ∈ inner, g.find? name = none) : c.Means name outer.length b where
  bound := (bindingAt?_split h).trans hf
  innermost _ hh := bindingAt?_inner h hh hi

/-- A look-up from the innermost frame outward finds what the name means. -/
theorem lookup?_eq_some_iff {b : Binding} :
    c.lookup? name = some b ↔ ∃ height, c.Means name height b := by
  unfold lookup?
  constructor
  · intro h
    obtain ⟨inner, f, outer, hs, hf, hi⟩ := List.findSome?_eq_some_iff.mp h
    exact ⟨outer.length, means_of_split hs hf hi⟩
  · rintro ⟨height, hm⟩
    cases h : c.frames.findSome? (·.find? name) with
    | some b' =>
      obtain ⟨inner, f, outer, hs, hf, hi⟩ := List.findSome?_eq_some_iff.mp h
      rw [(hm.unique (means_of_split hs hf hi)).2]
    | none =>
      obtain ⟨f, hf, hb⟩ := Option.bind_eq_some_iff.mp hm.bound
      have hmem : f ∈ c.frames := List.mem_reverse.mp (List.mem_of_getElem? hf)
      exact nomatch (List.findSome?_eq_none_iff.mp h f hmem).symm.trans hb

theorem lookup?_eq_none_iff :
    c.lookup? name = none ↔ ∀ height, c.bindingAt? height name = none := by
  constructor
  · intro h height
    unfold bindingAt?
    cases hf : c.frames.reverse[height]? with
    | none => rfl
    | some f =>
      exact List.findSome?_eq_none_iff.mp h f (List.mem_reverse.mp (List.mem_of_getElem? hf))
  · intro h
    cases hl : c.lookup? name with
    | none => rfl
    | some b =>
      obtain ⟨height, hm⟩ := lookup?_eq_some_iff.mp hl
      exact nomatch (h height).symm.trans hm.bound

/-- One context after another in which a variable was put into the frame at some height. -/
structure PutAt (c : Context) (height : Nat) (b : Binding) (c' : Context) : Prop where
  frames : c'.frames.reverse = c.frames.reverse.modify height (·.put b)
  bounded : height ≤ c.depth
  botName : c'.botName = c.botName
  version : c'.version = c.version

namespace PutAt

variable {height : Nat} {b : Binding} (h : c.PutAt height b c')
include h

theorem depth_eq : c'.depth = c.depth := by
  have hlen : c'.frames.length = c.frames.length := by
    rw [← List.length_reverse, h.frames, List.length_modify, List.length_reverse]
  rw [length_frames, length_frames] at hlen
  omega

theorem bindingAt?_self : c'.bindingAt? height b.name = some b := by
  have hlt : height < c.frames.reverse.length := by
    rw [List.length_reverse, length_frames]
    have := h.bounded
    omega
  unfold bindingAt?
  rw [h.frames, List.getElem?_modify_eq, List.getElem?_eq_getElem hlt]
  simp [Frame.find?_put]

theorem bindingAt?_other {h' : Nat} {name : String} (hne : ¬ (h' = height ∧ name = b.name)) :
    c'.bindingAt? h' name = c.bindingAt? h' name := by
  unfold bindingAt?
  rw [h.frames]
  by_cases hh : height = h'
  · subst hh
    have hn : b.name ≠ name := fun he => hne ⟨rfl, he.symm⟩
    rw [List.getElem?_modify_eq]
    cases c.frames.reverse[height]? with
    | none => rfl
    | some f => simp [Frame.find?_put, hn]
  · rw [List.getElem?_modify_ne _ _ hh]

/-- A variable in the innermost frame that binds its name, or further in, is what the name means. -/
theorem means (hi : ∀ h', height < h' → c.bindingAt? h' b.name = none) :
    c'.Means b.name height b where
  bound := h.bindingAt?_self
  innermost h' hh := by
    rw [h.bindingAt?_other fun he => by omega]
    exact hi h' hh

end PutAt

theorem putAt_of_split {inner outer : List Frame} {f : Frame} {b : Binding}
    (h : c.frames = inner ++ f :: outer) (h' : c'.frames = inner ++ f.put b :: outer)
    (hn : c'.botName = c.botName) (hv : c'.version = c.version) : c.PutAt outer.length b c' where
  frames := by rw [h, h', modify_reverse]
  bounded := by
    have hlen := congrArg List.length h
    rw [length_frames, List.length_append, List.length_cons] at hlen
    omega
  botName := hn
  version := hv

def target (c : Context) : Scope → Nat
  | .global => 0
  | .local => c.depth

def scopeAt (height : Nat) : Scope := if height = 0 then .global else .local

/-- A definition goes to the frame of its scope, and is refused if that binds the name readonly. -/
theorem define_spec (c : Context) (name : String) (v : Value) (scope : Scope) (readonly : Bool)
    (loc : Location) :
    ((∃ b, c.bindingAt? (c.target scope) name = some b ∧ b.readonly = true) ∧
      c.define name v scope readonly loc = .error (refusal name loc)) ∨
    ((∀ b, c.bindingAt? (c.target scope) name = some b → b.readonly = false) ∧
      ∃ c', c.define name v scope readonly loc = .ok c' ∧
        c.PutAt (c.target scope) ⟨name, v, scopeAt (c.target scope), readonly, loc⟩ c' ∧
        c'.stats = { c.stats with definitions := c.stats.definitions + 1 }) := by
  -- The frame that is defined in, and the context that a definition in it would give.
  obtain ⟨inner, f, outer, c', hs, hlen, hdef, hs', hrest⟩ :
      ∃ inner f outer c', c.frames = inner ++ f :: outer ∧ outer.length = c.target scope ∧
        (c.define name v scope readonly loc =
          if (f.find? name).any (·.readonly) then .error (refusal name loc) else .ok c') ∧
        c'.frames = inner ++ f.put ⟨name, v, scopeAt (c.target scope), readonly, loc⟩ :: outer ∧
        c'.botName = c.botName ∧ c'.version = c.version ∧
        c'.stats = { c.stats with definitions := c.stats.definitions + 1 } := by
    cases scope with
    | global => exact ⟨c.locals, c.globals, [], _, rfl, rfl, rfl, rfl, rfl, rfl, rfl⟩
    | «local» =>
      unfold define target depth frames
      cases hl : c.locals with
      | nil => exact ⟨[], c.globals, [], _, rfl, rfl, rfl, by simp [scopeAt], rfl, rfl, rfl⟩
      | cons f rest =>
        refine ⟨[], f, rest ++ [c.globals], _, rfl, by simp, rfl, ?_, rfl, rfl, rfl⟩
        simp [scopeAt]
  have hb : c.bindingAt? (c.target scope) name = f.find? name := by
    rw [← hlen, bindingAt?_split hs]
  rw [hb, hdef]
  cases hr : (f.find? name).any (·.readonly) with
  | true => exact .inl ⟨(Option.any_eq_true _ _).mp hr, rfl⟩
  | false =>
    refine .inr ⟨fun b hf => ?_, c', rfl, ?_, hrest.2.2⟩
    · rwa [hf, Option.any_some] at hr
    · rw [← hlen] at hs' ⊢
      exact putAt_of_split hs hs' hrest.1 hrest.2.1

theorem assignIn_split {inner rest : List Frame} {f : Frame} {b : Binding}
    (hi : ∀ g ∈ inner, g.find? name = none) (hf : f.find? name = some b) (v : Value) :
    assignIn name v (inner ++ f :: rest) = inner ++ f.put { b with value := v } :: rest := by
  induction inner with
  | nil =>
    rw [List.nil_append, assignIn, hf]
    rfl
  | cons g inner ih =>
    rw [List.cons_append, assignIn, hi g List.mem_cons_self]
    dsimp only
    rw [ih fun g' hg' => hi g' (List.mem_cons_of_mem _ hg'), List.cons_append]

/-- An assignment goes to the variable that the name means. -/
theorem set_of_means {height : Nat} {b : Binding} (hm : c.Means name height b)
    (hr : b.readonly = false) (v : Value) :
    ∃ c', c.set name v = .ok c' ∧ c.PutAt height { b with value := v } c' ∧
      c'.stats = c.stats := by
  have hl : c.lookup? name = some b := lookup?_eq_some_iff.mpr ⟨height, hm⟩
  obtain ⟨inner, f, outer, hs, hf, hi⟩ := List.findSome?_eq_some_iff.mp hl
  obtain ⟨hheight, -⟩ := hm.unique (means_of_split hs hf hi)
  rw [← hheight]
  unfold set
  rw [hl]
  dsimp only
  rw [if_neg (by rw [hr]; decide)]
  rcases List.eq_nil_or_concat' outer with rfl | ⟨rest, g, rfl⟩
  · -- Only the global frame binds the name.
    obtain ⟨hlocals, hglobals⟩ := List.append_inj' hs rfl
    have hany : c.locals.any (fun f => (f.find? name).isSome) = false := by
      rw [List.any_eq_false]
      intro g hg
      rw [hi g (hlocals ▸ hg)]
      decide
    rw [hany]
    refine ⟨_, rfl, putAt_of_split hs ?_ rfl rfl, rfl⟩
    cases hglobals
    rw [← hlocals]
    rfl
  · have hs' : c.locals ++ [c.globals] = (inner ++ f :: rest) ++ [g] := by
      rw [List.append_assoc]
      exact hs
    obtain ⟨hlocals, hglobals⟩ := List.append_inj' hs' rfl
    have hany : c.locals.any (fun f => (f.find? name).isSome) = true := by
      rw [List.any_eq_true]
      refine ⟨f, ?_, by rw [hf]; rfl⟩
      rw [hlocals]
      exact List.mem_append_right _ List.mem_cons_self
    rw [hany]
    refine ⟨_, rfl, putAt_of_split hs ?_ rfl rfl, rfl⟩
    change assignIn name v c.locals ++ [c.globals] = _
    rw [hlocals, assignIn_split hi hf, hglobals, List.append_assoc]
    rfl

theorem set_of_unbound (h : ∀ height, c.bindingAt? height name = none) (v : Value) :
    c.set name v = .error { cause := .undefined name } := by
  unfold set
  rw [lookup?_eq_none_iff.mpr h]

theorem get_of_means {height : Nat} {b : Binding} (h : c.Means name height b) :
    c.get name = .ok b.value := by
  unfold get
  rw [lookup?_eq_some_iff.mpr ⟨height, h⟩]

/-- One context after another in which a single variable is new or changed: the one of that name in
the frame at that height. -/
structure Rebound (c : Context) (height : Nat) (b : Binding) (c' : Context) : Prop where
  self : c'.bindingAt? height b.name = some b
  others : ∀ h name, ¬ (h = height ∧ name = b.name) → c'.bindingAt? h name = c.bindingAt? h name
  elsewhere : ∀ h, h ≠ height → c'.frames.reverse[h]? = c.frames.reverse[h]?
  depth : c'.depth = c.depth
  botName : c'.botName = c.botName
  version : c'.version = c.version

theorem PutAt.rebound {height : Nat} {b : Binding} (h : c.PutAt height b c') :
    c.Rebound height b c' where
  self := h.bindingAt?_self
  others _ _ := h.bindingAt?_other
  elsewhere _ hne := by rw [h.frames, List.getElem?_modify_ne _ _ hne.symm]
  depth := h.depth_eq
  botName := h.botName
  version := h.version

/-- No frame above the one that a local definition goes to binds anything. -/
theorem PutAt.means_local {b : Binding} (h : c.PutAt (c.target .local) b c') :
    c'.Means b.name (c.target .local) b :=
  h.means fun _ hh => bindingAt?_of_depth_lt hh

theorem name_of_means {height : Nat} {b : Binding} (h : c.Means name height b) : b.name = name := by
  obtain ⟨f, -, hf⟩ := Option.bind_eq_some_iff.mp h.bound
  exact Frame.name_of_find? hf

section Run

variable {height : Nat} {b : Binding} (v : Value)

theorem run_set_unbound (h : ∀ height, c.bindingAt? height name = none) :
    (Action.set name v).run c = .error (.error { cause := .undefined name }) c :=
  Action.run_of_error (congrArg (Except.mapError Trouble.error) (set_of_unbound h v))

theorem run_set_readonly (hm : c.Means name height b) (hr : b.readonly = true) :
    (Action.set name v).run c = .error (.error { cause := .readonly name }) c := by
  have hl : c.lookup? name = some b := lookup?_eq_some_iff.mpr ⟨height, hm⟩
  exact Action.run_of_error (congrArg (Except.mapError Trouble.error) (set_readonly hl hr v))

theorem run_set_means (hm : c.Means name height b) (hr : b.readonly = false) :
    ∃ c', (Action.set name v).run c = .ok () c' ∧ c'.get name = .ok v ∧
      c.Rebound height { b with value := v } c' ∧ c'.stats = c.stats := by
  obtain ⟨c', hset, hput, hstats⟩ := set_of_means hm hr v
  have hm' : c'.Means name height { b with value := v } := by
    have hn := name_of_means hm
    subst hn
    exact hput.means hm.innermost
  have hrun : (Action.set name v).run c = .ok () c' :=
    Action.run_of_ok (congrArg (Except.mapError Trouble.error) hset)
  exact ⟨c', hrun, get_of_means hm', hput.rebound, hstats⟩

variable (scope : Scope) (readonly : Bool) (loc : Location)

theorem run_define_readonly (hb : c.bindingAt? (c.target scope) name = some b)
    (hr : b.readonly = true) :
    (Action.define name v scope readonly loc).run c = .error (.error (refusal name loc)) c := by
  rcases c.define_spec name v scope readonly loc with ⟨-, hdef⟩ | ⟨hfree, -⟩
  · exact Action.run_of_error (congrArg (Except.mapError Trouble.error) hdef)
  · rw [hfree b hb] at hr
    cases hr

theorem run_define_free
    (hfree : ∀ b, c.bindingAt? (c.target scope) name = some b → b.readonly = false) :
    ∃ c', (Action.define name v scope readonly loc).run c = .ok () c' ∧
      c.Rebound (c.target scope) ⟨name, v, scopeAt (c.target scope), readonly, loc⟩ c' ∧
      c'.stats = { c.stats with definitions := c.stats.definitions + 1 } ∧
      (scope = .local → c'.get name = .ok v) := by
  rcases c.define_spec name v scope readonly loc with ⟨⟨b, hb, hr⟩, -⟩ | ⟨-, c', hdef, hput, hstats⟩
  · rw [hfree b hb] at hr
    cases hr
  · have hrun : (Action.define name v scope readonly loc).run c = .ok () c' :=
      Action.run_of_ok (congrArg (Except.mapError Trouble.error) hdef)
    refine ⟨c', hrun, hput.rebound, hstats, ?_⟩
    rintro rfl
    exact get_of_means hput.means_local

end Run

/-- What assignments and definitions do in any context. An assignment is made exactly if the innermost
frame that binds the name does not bind it readonly, and a definition exactly if the frame that it
goes to does not. One variable changes then, and nothing else but the count of definitions. What is
refused leaves the context as it was. -/
theorem set_define_exact (c : Context) (name : String) (v : Value) :
    ((∃ c', (Action.set name v).run c = .ok () c') ↔
      ∃ height b, c.Means name height b ∧ b.readonly = false) ∧
    (∀ height b, c.Means name height b → b.readonly = false →
      ∃ c', (Action.set name v).run c = .ok () c' ∧ c'.get name = .ok v ∧
        c.Rebound height { b with value := v } c' ∧ c'.stats = c.stats) ∧
    ((∀ height, c.bindingAt? height name = none) →
      (Action.set name v).run c = .error (.error { cause := .undefined name }) c) ∧
    (∀ height b, c.Means name height b → b.readonly = true →
      (Action.set name v).run c = .error (.error { cause := .readonly name }) c) ∧
    ∀ (scope : Scope) (readonly : Bool) (loc : Location),
      ((∃ c', (Action.define name v scope readonly loc).run c = .ok () c') ↔
        ¬ ∃ b, c.bindingAt? (c.target scope) name = some b ∧ b.readonly = true) ∧
      ((¬ ∃ b, c.bindingAt? (c.target scope) name = some b ∧ b.readonly = true) →
        ∃ c', (Action.define name v scope readonly loc).run c = .ok () c' ∧
          c.Rebound (c.target scope) ⟨name, v, scopeAt (c.target scope), readonly, loc⟩ c' ∧
          c'.stats = { c.stats with definitions := c.stats.definitions + 1 } ∧
          (scope = .local → c'.get name = .ok v)) ∧
      ∀ b, c.bindingAt? (c.target scope) name = some b → b.readonly = true →
        (Action.define name v scope readonly loc).run c = .error (.error (refusal name loc)) c := by
  refine ⟨⟨?_, ?_⟩, fun _ _ => run_set_means v, run_set_unbound v, fun _ _ => run_set_readonly v,
    fun scope readonly loc => ?_⟩
  · rintro ⟨c', hrun⟩
    cases hl : c.lookup? name with
    | none =>
      rw [run_set_unbound v (lookup?_eq_none_iff.mp hl)] at hrun
      cases hrun
    | some b =>
      obtain ⟨height, hm⟩ := lookup?_eq_some_iff.mp hl
      refine ⟨height, b, hm, Bool.eq_false_iff.mpr fun hr => ?_⟩
      rw [run_set_readonly v hm hr] at hrun
      cases hrun
  · rintro ⟨height, b, hm, hr⟩
    obtain ⟨c', hrun, -⟩ := run_set_means v hm hr
    exact ⟨c', hrun⟩
  · have hmade (hfree : ¬ ∃ b, c.bindingAt? (c.target scope) name = some b ∧ b.readonly = true) :=
      run_define_free v scope readonly loc
        fun b hb => Bool.eq_false_iff.mpr fun hr => hfree ⟨b, hb, hr⟩
    refine ⟨⟨?_, fun hfree => ?_⟩, hmade, fun b => run_define_readonly v scope readonly loc⟩
    · rintro ⟨c', hrun⟩ ⟨b, hb, hr⟩
      rw [run_define_readonly v scope readonly loc hb hr] at hrun
      cases hrun
    · obtain ⟨c', hrun, -⟩ := hmade hfree
      exact ⟨c', hrun⟩

end Context

end AgentScript

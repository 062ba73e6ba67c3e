import AgentScript.Eval
import AgentScript.Proofs.Context.Shape

/-! Readonly variables: no change that a script can make of a context touches them. Frames are told
apart by their height above the global one, which blocks that open and close do not move. -/
namespace AgentScript

theorem forall₂_getElem? {α : Type} {R : α → α → Prop} {as bs : List α} (h : List.Forall₂ R as bs)
    {i : Nat} {a : α} (ha : as[i]? = some a) : ∃ b, bs[i]? = some b ∧ R a b := by
  induction h generalizing i with
  | nil => cases ha
  | @cons x y _ _ hxy _ ih =>
    cases i with
    | zero =>
      cases ha
      exact ⟨y, rfl, hxy⟩
    | succ i => exact ih ha

/-- A readonly variable is the same at both times. -/
theorem Binding.Alike.eq {a b : Binding} (h : Alike a b) (hr : a.readonly = true) : b = a := by
  obtain ⟨name, value, scope, readonly, loc⟩ := b
  obtain ⟨hname, hscope, hreadonly, hloc, hvalue⟩ := h
  cases hname
  cases hscope
  cases hreadonly
  cases hloc
  cases hvalue hr
  rfl

namespace Frame

/-- The readonly variables of one frame are in the other as they are. -/
def Guards (f g : Frame) : Prop :=
  ∀ name b, f.find? name = some b → b.readonly = true → g.find? name = some b

theorem Guards.refl (f : Frame) : Guards f f := fun _ _ h _ => h

theorem Guards.trans {f g h : Frame} (hfg : f.Guards g) (hgh : g.Guards h) : f.Guards h :=
  fun name b hb hr => hgh name b (hfg name b hb hr) hr

theorem find?_cons (a : Binding) (f : Frame) (name : String) :
    Frame.find? (a :: f) name = if a.name = name then some a else f.find? name := by
  unfold find?
  by_cases h : a.name = name
  · rw [if_pos h, List.find?_cons_of_pos (by simpa using h)]
  · rw [if_neg h, List.find?_cons_of_neg (by simpa using h)]

theorem find?_put (f : Frame) (b : Binding) (name : String) :
    (f.put b).find? name = if b.name = name then some b else f.find? name := by
  induction f with
  | nil => exact find?_cons b [] name
  | cons a f ih =>
    unfold put
    by_cases ha : a.name = b.name
    · rw [if_pos ha, find?_cons, find?_cons, ha]
      by_cases hn : b.name = name
      · rw [if_pos hn, if_pos hn]
      · rw [if_neg hn, if_neg hn, if_neg hn]
    · rw [if_neg ha, find?_cons, find?_cons, ih]
      by_cases hn : b.name = name
      · have han : a.name ≠ name := by rwa [← hn]
        rw [if_neg han, if_pos hn, if_pos hn]
      · simp only [hn, if_false]

/-- A variable that takes no readonly one's place leaves those alone. -/
theorem guards_put {f : Frame} {b : Binding}
    (h : (f.find? b.name).any (·.readonly) = false) : f.Guards (f.put b) := by
  intro name a ha hr
  rw [find?_put]
  by_cases hn : b.name = name
  · rw [hn, ha, Option.any_some, hr] at h
    cases h
  · rw [if_neg hn, ha]

theorem Alike.find? {f g : Frame} (h : Alike f g) {name : String} {b : Binding}
    (hb : f.find? name = some b) : ∃ b', g.find? name = some b' ∧ b.Alike b' := by
  induction h with
  | nil => cases hb
  | @cons a a' f g haa _ ih =>
    rw [find?_cons] at hb ⊢
    rw [haa.name]
    by_cases hn : a.name = name
    · rw [if_pos hn] at hb ⊢
      cases hb
      exact ⟨a', rfl, haa⟩
    · rw [if_neg hn] at hb ⊢
      exact ih hb

theorem Alike.guards {f g : Frame} (h : Alike f g) : f.Guards g := by
  intro name b hb hr
  obtain ⟨b', hb', hbb⟩ := h.find? hb
  rw [hb', hbb.eq hr]

end Frame

namespace Context

/-- The variable of a name in the frame at some height. The global frame is at height zero. -/
def bindingAt? (c : Context) (height : Nat) (name : String) : Option Binding :=
  c.frames.reverse[height]?.bind (·.find? name)

/-- Every readonly variable of one context is in the same frame of the other as it is. -/
def Guards (c c' : Context) : Prop :=
  ∀ height name b, c.bindingAt? height name = some b → b.readonly = true →
    c'.bindingAt? height name = some b

theorem Guards.refl (c : Context) : Guards c c := fun _ _ _ h _ => h

theorem Guards.trans {c₁ c₂ c₃ : Context} (h : Guards c₁ c₂) (h' : Guards c₂ c₃) :
    Guards c₁ c₃ := fun height name b hb hr => h' height name b (h height name b hb hr) hr

theorem guards_of_frames {c c' : Context} (h : List.Forall₂ Frame.Guards c.frames c'.frames) :
    Guards c c' := by
  intro height name b hb hr
  obtain ⟨f, hf, hfb⟩ := Option.bind_eq_some_iff.mp hb
  obtain ⟨g, hg, hfg⟩ := forall₂_getElem? (List.forall₂_reverse_iff.mpr h) hf
  exact Option.bind_eq_some_iff.mpr ⟨g, hg, hfg name b hfb hr⟩

theorem Shaped.framesAlike {c c' : Context} (h : Shaped c c') :
    List.Forall₂ Frame.Alike c.frames c'.frames :=
  List.rel_append h.locals (.cons h.globals .nil)

theorem Shaped.guards {c c' : Context} (h : Shaped c c') : Guards c c' :=
  guards_of_frames (h.framesAlike.imp fun _ _ => Frame.Alike.guards)

theorem guards_enter (c : Context) : Guards c c.enter := by
  intro height name b hb _
  obtain ⟨f, hf, hfb⟩ := Option.bind_eq_some_iff.mp hb
  refine Option.bind_eq_some_iff.mpr ⟨f, ?_, hfb⟩
  have he : c.enter.frames.reverse = c.frames.reverse ++ [[]] := by simp [frames, enter]
  rw [he, List.getElem?_append_left (List.getElem?_eq_some_iff.mp hf).1, hf]

/-- The innermost of more frames than there were is none of those that count. -/
theorem guards_exit {c c' : Context} (hd : c'.depth = c.depth + 1) (h : Guards c c') :
    Guards c c'.exit := by
  intro height name b hb hr
  obtain ⟨f, hf, -⟩ := Option.bind_eq_some_iff.mp hb
  obtain ⟨g, hg, hgb⟩ := Option.bind_eq_some_iff.mp (h height name b hb hr)
  refine Option.bind_eq_some_iff.mpr ⟨g, ?_, hgb⟩
  obtain ⟨inner, rest, hl⟩ := List.exists_cons_of_length_eq_add_one hd
  have he : c'.frames.reverse = c'.exit.frames.reverse ++ [inner] := by simp [frames, exit, hl]
  have hlt : height < c'.exit.frames.reverse.length := by
    have hh := (List.getElem?_eq_some_iff.mp hf).1
    simp only [depth, hl, List.length_cons] at hd
    simp only [frames, List.length_reverse, List.length_append, List.length_cons, exit, hl,
      List.drop_succ_cons, List.drop_zero] at hh ⊢
    omega
  rwa [he, List.getElem?_append_left hlt] at hg

theorem forall₂_guards_refl (fs : List Frame) : List.Forall₂ Frame.Guards fs fs :=
  List.forall₂_same.mpr fun f _ => .refl f

theorem define_guards {c c' : Context} {name : String} {v : Value} {scope : Scope}
    {readonly : Bool} {loc : Location} (h : c.define name v scope readonly loc = .ok c') :
    Guards c c' := by
  unfold define at h
  dsimp only at h
  split at h
  · next frame rest hl =>
    split at h
    · cases h
    · next hr =>
      cases h
      refine guards_of_frames ?_
      rw [frames, hl]
      exact .cons (Frame.guards_put (by simpa using hr)) (forall₂_guards_refl _)
  · split at h
    · cases h
    · next hr =>
      cases h
      refine guards_of_frames (List.rel_append (forall₂_guards_refl c.locals) ?_)
      exact .cons (Frame.guards_put (by simpa using hr)) .nil

/-- As many frames are open, and the readonly variables in them are as they were. -/
structure Guarded (c c' : Context) : Prop where
  depth : c'.depth = c.depth
  guards : Guards c c'

namespace Guarded

theorem refl (c : Context) : Guarded c c := ⟨rfl, .refl c⟩

theorem trans {c₁ c₂ c₃ : Context} (h : Guarded c₁ c₂) (h' : Guarded c₂ c₃) : Guarded c₁ c₃ :=
  ⟨h'.depth.trans h.depth, h.guards.trans h'.guards⟩

/-- A scope that is closed again has touched no readonly variable outside of it. -/
theorem exit {c c' : Context} (h : Guarded c.enter c') : Guarded c c'.exit := by
  have hd : c'.depth = c.depth + 1 := h.depth
  refine ⟨?_, guards_exit hd ((guards_enter c).trans h.guards)⟩
  simp only [Context.depth, Context.exit, List.length_drop] at hd ⊢
  omega

end Guarded

def innermost (c : Context) : Frame := c.locals.head?.getD c.globals

/-- The error of a definition of what is readonly. A zero counts as no line or no column. -/
def refusal (name : String) (loc : Location) : ScriptError where
  cause := .readonly name
  line := if loc.line = 0 then none else some loc.line
  column := if loc.column = 0 then none else some loc.column

theorem define_innermost (c : Context) (name : String) (v : Value) (loc : Location) :
    ((c.innermost.find? name).any (·.readonly) = true ∧
      c.define name v .local false loc = .error (refusal name loc)) ∨
    ((c.innermost.find? name).any (·.readonly) = false ∧
      ∃ c', c.define name v .local false loc = .ok c') := by
  unfold define innermost
  cases hl : c.locals with
  | nil =>
    simp only [List.head?_nil, Option.getD_none]
    cases hr : (c.globals.find? name).any (·.readonly) with
    | true => exact .inl ⟨rfl, rfl⟩
    | false => exact .inr ⟨rfl, _, rfl⟩
  | cons f rest =>
    simp only [List.head?_cons, Option.getD_some]
    cases hr : (f.find? name).any (·.readonly) with
    | true => exact .inl ⟨rfl, rfl⟩
    | false => exact .inr ⟨rfl, _, rfl⟩

/-- A readonly variable cannot be defined anew in its own frame. -/
theorem define_readonly {c : Context} {name : String} {b : Binding}
    (hb : c.innermost.find? name = some b) (hr : b.readonly = true) (v : Value) (loc : Location) :
    c.define name v .local false loc = .error (refusal name loc) := by
  rcases c.define_innermost name v loc with ⟨-, h⟩ | ⟨h, -⟩
  · exact h
  · rw [hb, Option.any_some, hr] at h
    cases h

theorem readonly_of_define {c : Context} {name : String} {v : Value} {loc : Location}
    {e : ScriptError} (h : c.define name v .local false loc = .error e) :
    ∃ b, c.innermost.find? name = some b ∧ b.readonly = true := by
  rcases c.define_innermost name v loc with ⟨hr, -⟩ | ⟨-, c', hok⟩
  · exact (Option.any_eq_true _ _).mp hr
  · rw [hok] at h
    cases h

theorem set_readonly {c : Context} {name : String} {b : Binding} (hb : c.lookup? name = some b)
    (hr : b.readonly = true) (v : Value) :
    c.set name v = .error { cause := .readonly name } := by
  unfold set
  rw [hb]
  dsimp only
  rw [if_pos hr]

theorem readonly_of_set {c : Context} {name : String} {v : Value} {b : Binding} {e : ScriptError}
    (hb : c.lookup? name = some b) (h : c.set name v = .error e) : b.readonly = true := by
  by_contra hr
  unfold set at h
  rw [hb] at h
  dsimp only at h
  rw [if_neg hr] at h
  split at h <;> cases h

/-- In a block a name can be defined unless the block itself binds it readonly. The definition hides
other variables of that name, and all frames but the innermost are as they were. -/
theorem define_shadows {c : Context} {name : String} {f : Frame} {rest : List Frame}
    (hl : c.locals = f :: rest) (hf : (f.find? name).any (·.readonly) = false) (v : Value)
    (loc : Location) :
    ∃ c' f', c.define name v .local false loc = .ok c' ∧
      c'.lookup? name = some ⟨name, v, .local, false, loc⟩ ∧
      c'.locals = f' :: rest ∧ c'.globals = c.globals := by
  unfold define
  simp only [hl, hf, Bool.false_eq_true, if_false]
  refine ⟨_, _, rfl, ?_, rfl, rfl⟩
  simp only [lookup?, frames, List.cons_append, List.findSome?_cons, Frame.find?_put, if_true]

theorem read_eq {label : Label} {name : String} (hk : label.key = .ok name) (c : Context) :
    c.read label =
      match c.lookup? name with
      | some b => .ok b.value
      | none => .error (Cause.undefined label.text).trouble := by
  unfold read
  rw [hk]
  rfl

theorem declare_eq {label : Label} {name : String} (hk : label.key = .ok name) (c : Context)
    (v : Value) (loc : Location) :
    c.declare label v loc = (c.define name v .local false loc).mapError .error := by
  unfold declare
  rw [hk]
  rfl

theorem assign_eq {label : Label} {name : String} (hk : label.key = .ok name) (c : Context)
    (v : Value) :
    c.assign label v =
      if c.has name then (c.set name v).mapError .error
      else .error (Cause.undefined label.text).trouble := by
  unfold assign
  rw [hk]
  rfl

theorem findSome?_alike {fs gs : List Frame} (h : List.Forall₂ Frame.Alike fs gs) {name : String}
    {b : Binding} (hb : fs.findSome? (·.find? name) = some b) :
    ∃ b', gs.findSome? (·.find? name) = some b' ∧ b.Alike b' := by
  induction h with
  | nil => cases hb
  | @cons f g fs gs hfg _ ih =>
    rw [List.findSome?_cons] at hb ⊢
    cases hf : f.find? name with
    | some a =>
      rw [hf] at hb
      cases hb
      obtain ⟨b', hb', haa⟩ := hfg.find? hf
      rw [hb']
      exact ⟨b', rfl, haa⟩
    | none =>
      rw [hf] at hb
      have hg : g.find? name = none := by
        have hs := hfg.find?_isSome name
        rw [hf] at hs
        exact Option.isNone_iff_eq_none.mp (by simpa using hs)
      rw [hg]
      exact ih hb

/-- A name that means a readonly variable goes on to mean it. -/
theorem Shaped.lookup?_eq {c c' : Context} (h : Shaped c c') {name : String} {b : Binding}
    (hb : c.lookup? name = some b) (hr : b.readonly = true) : c'.lookup? name = some b := by
  obtain ⟨b', hb', hbb⟩ := findSome?_alike h.framesAlike hb
  exact hb'.trans (congrArg some (hbb.eq hr))

end Context

end AgentScript

import AgentScript.Context
import AgentScript.Proofs.Except
import Mathlib.Data.List.Forall2

/-! The shape of a context: its frames, and in each of them the same variables in the same order.
Only the values of variables that can be changed may differ between contexts of one shape. Beside it
stands what else a change of a context leaves as it was. -/
namespace AgentScript

structure Binding.Alike (a b : Binding) : Prop where
  name : b.name = a.name
  scope : b.scope = a.scope
  readonly : b.readonly = a.readonly
  loc : b.loc = a.loc
  value : a.readonly = true → b.value = a.value

namespace Binding.Alike

theorem refl (a : Binding) : Alike a a := ⟨rfl, rfl, rfl, rfl, fun _ => rfl⟩

theorem trans {a b c : Binding} (h : Alike a b) (h' : Alike b c) : Alike a c where
  name := h'.name.trans h.name
  scope := h'.scope.trans h.scope
  readonly := h'.readonly.trans h.readonly
  loc := h'.loc.trans h.loc
  value := by
    intro ha
    have hb : b.readonly = true := h.readonly.trans ha
    rw [h'.value hb, h.value ha]

end Binding.Alike

theorem forall₂_trans {α : Type} {R : α → α → Prop} {as bs cs : List α}
    (hab : List.Forall₂ R as bs) (hbc : List.Forall₂ R bs cs)
    (h : ∀ a b c, R a b → R b c → R a c) : List.Forall₂ R as cs := by
  induction hab generalizing cs with
  | nil => exact hbc
  | cons hr _ ih =>
    cases hbc with
    | cons hr' hbc => exact .cons (h _ _ _ hr hr') (ih hbc)

namespace Frame

def Alike (f g : Frame) : Prop := List.Forall₂ Binding.Alike f g

theorem Alike.refl (f : Frame) : Alike f f := List.forall₂_same.mpr fun a _ => .refl a

theorem Alike.trans {f g h : Frame} (hfg : Alike f g) (hgh : Alike g h) : Alike f h :=
  forall₂_trans hfg hgh fun _ _ _ => Binding.Alike.trans

theorem Alike.find?_isSome {f g : Frame} (h : Alike f g) (name : String) :
    (g.find? name).isSome = (f.find? name).isSome := by
  induction h with
  | nil => rfl
  | cons hab _ ih =>
    unfold find? at ih ⊢
    rw [List.find?_cons, List.find?_cons, hab.name]
    split
    · rfl
    · exact ih

/-- A variable that can be changed gets a new value. -/
theorem alike_put {f : Frame} {name : String} {a : Binding} (h : f.find? name = some a)
    (hr : a.readonly = false) (v : Value) : Alike f (f.put { a with value := v }) := by
  induction f with
  | nil => cases h
  | cons b f ih =>
    unfold find? at h
    by_cases hb : b.name = name
    · rw [List.find?_cons_of_pos (by simpa using hb)] at h
      cases h
      rw [put, if_pos rfl]
      refine .cons ⟨rfl, rfl, rfl, rfl, ?_⟩ (Alike.refl f)
      intro ht
      rw [hr] at ht
      cases ht
    · rw [List.find?_cons_of_neg (by simpa using hb)] at h
      have ha : a.name = name := by simpa using List.find?_some h
      have hne : b.name ≠ a.name := by rwa [ha]
      rw [put, if_neg hne]
      exact .cons (.refl b) (ih h)

end Frame

namespace Context

structure Shaped (c c' : Context) : Prop where
  globals : Frame.Alike c.globals c'.globals
  locals : List.Forall₂ Frame.Alike c.locals c'.locals

/-- As many frames are open, and those below the innermost one are alike. -/
structure Beneath (c c' : Context) : Prop where
  depth : c'.depth = c.depth
  globals : c.locals ≠ [] → Frame.Alike c.globals c'.globals
  outer : List.Forall₂ Frame.Alike (c.locals.drop 1) (c'.locals.drop 1)

theorem framesAlike_refl (fs : List Frame) : List.Forall₂ Frame.Alike fs fs :=
  List.forall₂_same.mpr fun f _ => .refl f

namespace Shaped

theorem refl (c : Context) : Shaped c c := ⟨.refl _, framesAlike_refl _⟩

theorem trans {c₁ c₂ c₃ : Context} (h : Shaped c₁ c₂) (h' : Shaped c₂ c₃) : Shaped c₁ c₃ :=
  ⟨h.globals.trans h'.globals, forall₂_trans h.locals h'.locals fun _ _ _ => Frame.Alike.trans⟩

theorem beneath {c c' : Context} (h : Shaped c c') : Beneath c c' where
  depth := h.locals.length_eq.symm
  globals := fun _ => h.globals
  outer := List.forall₂_drop 1 h.locals

theorem findSome?_isSome {fs gs : List Frame} (h : List.Forall₂ Frame.Alike fs gs)
    (name : String) :
    (gs.findSome? (·.find? name)).isSome = (fs.findSome? (·.find? name)).isSome := by
  induction h with
  | nil => rfl
  | @cons f g _ _ hab _ ih =>
    have hs := hab.find?_isSome name
    rw [List.findSome?_cons, List.findSome?_cons]
    cases hf : f.find? name with
    | none =>
      rw [hf, Option.isSome_none, Option.isSome_eq_false_iff, Option.isNone_iff_eq_none] at hs
      rw [hs]
      exact ih
    | some a =>
      rw [hf, Option.isSome_some, Option.isSome_iff_exists] at hs
      obtain ⟨b, hb⟩ := hs
      rw [hb]
      rfl

/-- The same names can be seen. -/
theorem has_eq {c c' : Context} (h : Shaped c c') (name : String) : c'.has name = c.has name := by
  have hf : List.Forall₂ Frame.Alike c.frames c'.frames :=
    List.rel_append h.locals (.cons h.globals .nil)
  exact findSome?_isSome hf name

end Shaped

namespace Beneath

theorem refl (c : Context) : Beneath c c := (Shaped.refl c).beneath

theorem trans {c₁ c₂ c₃ : Context} (h : Beneath c₁ c₂) (h' : Beneath c₂ c₃) : Beneath c₁ c₃ where
  depth := h'.depth.trans h.depth
  globals := by
    intro hne
    have hne' : c₂.locals ≠ [] := by
      have hd : c₂.locals.length = c₁.locals.length := h.depth
      intro hn
      rw [hn] at hd
      exact hne (List.length_eq_zero_iff.mp hd.symm)
    exact (h.globals hne).trans (h'.globals hne')
  outer := forall₂_trans h.outer h'.outer fun _ _ _ => Frame.Alike.trans

/-- A scope that is closed again leaves the shape as it was. -/
theorem shaped_exit {c c' : Context} (h : Beneath c.enter c') : Shaped c c'.exit where
  globals := h.globals (List.cons_ne_nil _ _)
  locals := h.outer

end Beneath

theorem define_beneath {c c' : Context} {name : String} {v : Value} {loc : Location}
    (h : c.define name v .local false loc = .ok c') : Beneath c c' := by
  unfold define at h
  cases hl : c.locals with
  | nil =>
    simp only [hl] at h
    split at h
    · cases h
    · cases h
      exact ⟨by simp [depth, hl], fun hne => absurd hl hne, by simp [hl]⟩
  | cons f rest =>
    simp only [hl] at h
    split at h
    · cases h
    · cases h
      refine ⟨?_, fun _ => .refl _, ?_⟩
      · simp [depth, hl]
      · rw [hl]
        exact framesAlike_refl rest

theorem alike_assignIn {name : String} {b : Binding} (hr : b.readonly = false) (v : Value)
    {fs : List Frame} (h : fs.findSome? (·.find? name) = some b) :
    List.Forall₂ Frame.Alike fs (assignIn name v fs) := by
  induction fs with
  | nil => exact .nil
  | cons f rest ih =>
    rw [List.findSome?_cons] at h
    unfold assignIn
    split
    · next a ha =>
      rw [ha] at h
      cases h
      exact .cons (Frame.alike_put ha hr v) (framesAlike_refl rest)
    · next ha =>
      rw [ha] at h
      exact .cons (.refl f) (ih h)

theorem set_shaped {c c' : Context} {name : String} {v : Value} (h : c.set name v = .ok c') :
    Shaped c c' := by
  unfold set at h
  split at h
  · cases h
  · next b hb =>
    unfold lookup? frames at hb
    rw [List.findSome?_append] at hb
    split at h
    · cases h
    · next hr =>
      have hr : b.readonly = false := by simpa using hr
      split at h
      · next hl =>
        cases h
        cases hf : c.locals.findSome? (·.find? name) with
        | none =>
          obtain ⟨f, hm, hs⟩ := List.any_eq_true.mp hl
          rw [List.findSome?_eq_none_iff.mp hf f hm] at hs
          cases hs
        | some a =>
          rw [hf] at hb
          cases hb
          exact ⟨.refl _, alike_assignIn hr v hf⟩
      · next hl =>
        cases h
        have hf : c.locals.findSome? (·.find? name) = none := by
          rw [List.findSome?_eq_none_iff]
          intro f hm
          simpa using fun hs => hl (List.any_eq_true.mpr ⟨f, hm, hs⟩)
        rw [hf] at hb
        have hg : c.globals.find? name = some b := by simpa using hb
        exact ⟨Frame.alike_put hg hr v, framesAlike_refl _⟩

theorem define_stats {c c' : Context} {name : String} {v : Value} {scope : Scope}
    {readonly : Bool} {loc : Location} (h : c.define name v scope readonly loc = .ok c') :
    c'.stats = { c.stats with definitions := c.stats.definitions + 1 } := by
  unfold define at h
  dsimp only at h
  split at h
  all_goals
    split at h
    · cases h
    · cases h
      rfl

theorem define_errors {c c' : Context} {name : String} {v : Value} {scope : Scope}
    {readonly : Bool} {loc : Location} (h : c.define name v scope readonly loc = .ok c') :
    c'.stats.errors = c.stats.errors := by
  rw [define_stats h]

theorem set_stats {c c' : Context} {name : String} {v : Value} (h : c.set name v = .ok c') :
    c'.stats = c.stats := by
  unfold set at h
  split at h
  · cases h
  · split at h
    · cases h
    · split at h
      all_goals
        cases h
        rfl

/-- Only the global frame holds system variables. -/
theorem foldl_writeSystem (shown : List (String × Value)) (c : Context) :
    (shown.foldl (fun c (name, v) => c.writeSystem name v) c).locals = c.locals ∧
    (shown.foldl (fun c (name, v) => c.writeSystem name v) c).stats = c.stats := by
  induction shown generalizing c with
  | nil => exact ⟨rfl, rfl⟩
  | cons x shown ih => exact ih (c.writeSystem x.1 x.2)

theorem update_locals {c c' : Context} {s : Option Snapshot} {now : Float}
    (h : c.update s now = .ok c') : c'.locals = c.locals ∧ c'.stats = c.stats := by
  unfold update at h
  split at h
  all_goals
    obtain ⟨shown, -, h⟩ := bind_eq_ok h
    cases h
    exact foldl_writeSystem shown c

end Context

end AgentScript

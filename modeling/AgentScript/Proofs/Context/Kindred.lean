import AgentScript.Proofs.Context.Guard
import Mathlib.Data.Option.Basic

/-! A name in one context beside a name in another. Where the frames of two contexts bind them alike,
the contexts look them up, define them and assign to them alike. -/
namespace AgentScript

variable {F : Frame → Frame → Prop} {B : Binding → Binding → Prop} {n n' : String}

/-- Two names that go together in related frames, which bind both to related variables or neither, and
which go on to be related when related variables are put into both. -/
structure Frame.Kin (F : Frame → Frame → Prop) (B : Binding → Binding → Prop) (n n' : String) :
    Prop where
  find? : ∀ {f g : Frame}, F f g → Option.Rel B (f.find? n) (g.find? n')
  put : ∀ {f g : Frame} {a b : Binding}, F f g → B a b → F (f.put a) (g.put b)
  readonly : ∀ {a b : Binding}, B a b → b.readonly = a.readonly
  assigned : ∀ {a b : Binding} (v : Value), B a b →
    B { a with value := v } { b with value := v }

namespace Frame.Kin

variable (k : Kin F B n n')
include k

/-- The names are readonly in both frames or in none. -/
theorem any_readonly {f g : Frame} (h : F f g) :
    (g.find? n').any (·.readonly) = (f.find? n).any (·.readonly) := by
  have hf := k.find? h
  generalize f.find? n = a at hf ⊢
  generalize g.find? n' = b at hf ⊢
  cases hf with
  | none => rfl
  | some hab => exact k.readonly hab

theorem findSome? {fs gs : List Frame} (h : List.Forall₂ F fs gs) :
    Option.Rel B (fs.findSome? (·.find? n)) (gs.findSome? (·.find? n')) := by
  induction h with
  | nil => exact .none
  | @cons f g fs gs hfg _ ih =>
    rw [List.findSome?_cons, List.findSome?_cons]
    have hf := k.find? hfg
    generalize f.find? n = a at hf ⊢
    generalize g.find? n' = b at hf ⊢
    cases hf with
    | none => exact ih
    | some hab => exact .some hab

theorem any_isSome {fs gs : List Frame} (h : List.Forall₂ F fs gs) :
    (gs.any fun g => (g.find? n').isSome) = fs.any fun f => (f.find? n).isSome := by
  induction h with
  | nil => rfl
  | @cons f g fs gs hfg _ ih =>
    have hf := k.find? hfg
    rw [List.any_cons, List.any_cons, ih]
    generalize f.find? n = a at hf ⊢
    generalize g.find? n' = b at hf ⊢
    cases hf <;> rfl

theorem assignIn {fs gs : List Frame} (h : List.Forall₂ F fs gs) (v : Value) :
    List.Forall₂ F (Context.assignIn n v fs) (Context.assignIn n' v gs) := by
  induction h with
  | nil => exact .nil
  | @cons f g fs gs hfg hrest ih =>
    unfold Context.assignIn
    have hf := k.find? hfg
    generalize f.find? n = a at hf ⊢
    generalize g.find? n' = b at hf ⊢
    cases hf with
    | none => exact .cons hfg ih
    | some hab => exact .cons (k.put hfg (k.assigned v hab)) hrest

section Contexts

variable {c c' : Context} (hg : F c.globals c'.globals) (hl : List.Forall₂ F c.locals c'.locals)
include hg hl

theorem lookup? : Option.Rel B (c.lookup? n) (c'.lookup? n') :=
  k.findSome? (List.rel_append hl (.cons hg .nil))

theorem has_eq : c'.has n' = c.has n := by
  have h := k.lookup? hg hl
  unfold Context.has
  generalize c.lookup? n = a at h ⊢
  generalize c'.lookup? n' = b at h ⊢
  cases h <;> rfl

variable {R : Context → Context → Prop}

/-- A definition is refused in both contexts, or it is made in both, and gives contexts that are
related as soon as their frames are. -/
theorem define (v : Value) {l l' : Location}
    (hnew : ∀ scope, B ⟨n, v, scope, false, l⟩ ⟨n', v, scope, false, l'⟩)
    (hR : ∀ {globals globals' : Frame} {locals locals' : List Frame},
      F globals globals' → List.Forall₂ F locals locals' →
      R { c with
          globals := globals
          locals := locals
          stats := { c.stats with definitions := c.stats.definitions + 1 } }
        { c' with
          globals := globals'
          locals := locals'
          stats := { c'.stats with definitions := c'.stats.definitions + 1 } }) :
    (c.define n v .local false l = .error (Context.refusal n l) ∧
      c'.define n' v .local false l' = .error (Context.refusal n' l')) ∨
    ∃ d d', c.define n v .local false l = .ok d ∧ c'.define n' v .local false l' = .ok d' ∧
      R d d' := by
  unfold Context.define
  dsimp only
  generalize c.locals = locals at hl ⊢
  generalize c'.locals = locals' at hl ⊢
  cases hl with
  | nil =>
    dsimp only
    rw [k.any_readonly hg]
    by_cases hro : (c.globals.find? n).any (·.readonly) = true
    · rw [if_pos hro, if_pos hro]
      exact .inl ⟨rfl, rfl⟩
    · rw [if_neg hro, if_neg hro]
      exact .inr ⟨_, _, rfl, rfl, hR (k.put hg (hnew .global)) .nil⟩
  | @cons f g fs gs hfg hrest =>
    dsimp only
    rw [k.any_readonly hfg]
    by_cases hro : (f.find? n).any (·.readonly) = true
    · rw [if_pos hro, if_pos hro]
      exact .inl ⟨rfl, rfl⟩
    · rw [if_neg hro, if_neg hro]
      exact .inr ⟨_, _, rfl, rfl, hR hg (.cons (k.put hfg (hnew .local)) hrest)⟩

/-- An assignment is refused in both contexts, for the same reason, or it is made in both, and gives
contexts that are related as soon as their frames are. -/
theorem set (v : Value)
    (hR : ∀ {globals globals' : Frame} {locals locals' : List Frame},
      F globals globals' → List.Forall₂ F locals locals' →
      R { c with globals := globals, locals := locals }
        { c' with globals := globals', locals := locals' }) :
    (c.set n v = .error { cause := .undefined n } ∧
      c'.set n' v = .error { cause := .undefined n' }) ∨
    (c.set n v = .error { cause := .readonly n } ∧
      c'.set n' v = .error { cause := .readonly n' }) ∨
    ∃ d d', c.set n v = .ok d ∧ c'.set n' v = .ok d' ∧ R d d' := by
  have h := k.lookup? hg hl
  unfold Context.set
  rw [k.any_isSome hl]
  generalize c.lookup? n = a at h ⊢
  generalize c'.lookup? n' = b at h ⊢
  cases h with
  | none => exact .inl ⟨rfl, rfl⟩
  | @some a b hab =>
    right
    have hsame : b.readonly = a.readonly := k.readonly hab
    dsimp only
    by_cases hro : a.readonly = true
    · rw [if_pos hro, if_pos (hsame.trans hro)]
      exact .inl ⟨rfl, rfl⟩
    · right
      rw [if_neg hro, if_neg fun h => hro (hsame.symm.trans h)]
      split
      · exact ⟨_, _, rfl, rfl, hR hg (k.assignIn hl v)⟩
      · exact ⟨_, _, rfl, rfl, hR (k.put hg (k.assigned v hab)) hl⟩

end Contexts

end Frame.Kin

end AgentScript

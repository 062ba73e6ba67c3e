import AgentScript.Proofs.Context.Kindred
import AgentScript.Proofs.Context.Readings

/-! Contexts recast: the same variables in the same frames and the same order, with the same values,
but each under a name of its own and from a place of its own. Whatever is done to a context can be
done to the other, and the two stay recast. -/
namespace AgentScript

variable {r : String → String} {K : Location → Location → Prop} {E : String → String → Prop}

structure Binding.Recast (r : String → String) (K : Location → Location → Prop) (a b : Binding) :
    Prop where
  name : b.name = r a.name
  value : b.value = a.value
  scope : b.scope = a.scope
  readonly : b.readonly = a.readonly
  loc : K a.loc b.loc

structure Label.Renames (r : String → String) (n n' : Label) : Prop where
  key : n'.key = n.key.map r
  text : n'.text = r n.text

namespace Frame

def Recast (r : String → String) (K : Location → Location → Prop) (f g : Frame) : Prop :=
  List.Forall₂ (Binding.Recast r K) f g

theorem Recast.find? {f g : Frame} (h : f.Recast r K g) (hr : Function.Injective r)
    (name : String) : Option.Rel (Binding.Recast r K) (f.find? name) (g.find? (r name)) := by
  induction h with
  | nil => exact .none
  | @cons a b f g hab _ ih =>
    rw [find?_cons, find?_cons, hab.name]
    by_cases hn : a.name = name
    · rw [if_pos hn, if_pos (congrArg r hn)]
      exact .some hab
    · rw [if_neg hn, if_neg fun he => hn (hr he)]
      exact ih

theorem Recast.put {f g : Frame} (h : f.Recast r K g) (hr : Function.Injective r) {a b : Binding}
    (hab : a.Recast r K b) : (f.put a).Recast r K (g.put b) := by
  induction h with
  | nil => exact .cons hab .nil
  | @cons a' b' f g hab' hfg ih =>
    unfold Frame.put
    rw [hab'.name, hab.name]
    by_cases hn : a'.name = a.name
    · rw [if_pos hn, if_pos (congrArg r hn)]
      exact .cons hab hfg
    · rw [if_neg hn, if_neg fun he => hn (hr he)]
      exact .cons hab' ih

/-- Every name goes together with what it is renamed to. -/
theorem kin_recast (hr : Function.Injective r) (name : String) :
    Kin (Frame.Recast r K) (Binding.Recast r K) name (r name) where
  find? h := h.find? hr name
  put h hab := h.put hr hab
  readonly h := h.readonly
  assigned _ h := ⟨h.name, rfl, h.scope, h.readonly, h.loc⟩

end Frame

namespace Context

/-- The same context with other names and places. Only the texts of errors on record may differ
beside them. -/
structure Recast (r : String → String) (K : Location → Location → Prop) (E : String → String → Prop)
    (c c' : Context) : Prop where
  botName : c'.botName = c.botName
  version : c'.version = c.version
  globals : c.globals.Recast r K c'.globals
  locals : List.Forall₂ (Frame.Recast r K) c.locals c'.locals
  stats : c'.stats = { c.stats with errors := c'.stats.errors }
  errors : List.Forall₂ E c.stats.errors c'.stats.errors

namespace Recast

variable {c c' : Context} (h : c.Recast r K E c') (hr : Function.Injective r)
include h

theorem imp {E' : String → String → Prop} (hE : ∀ s s', E s s' → E' s s') : c.Recast r K E' c' :=
  ⟨h.botName, h.version, h.globals, h.locals, h.stats, h.errors.imp hE⟩

theorem withFrames {globals globals' : Frame} {locals locals' : List Frame}
    (hg : globals.Recast r K globals') (hl : List.Forall₂ (Frame.Recast r K) locals locals') :
    Recast r K E { c with globals := globals, locals := locals }
      { c' with globals := globals', locals := locals' } :=
  ⟨h.botName, h.version, hg, hl, h.stats, h.errors⟩

/-- Figures of the statistics change alike. -/
theorem withStats (f : Stats → Stats)
    (hf : ∀ (s : Stats) errors, f { s with errors := errors } = { f s with errors := errors }) :
    Recast r K E { c with stats := f c.stats } { c' with stats := f c'.stats } := by
  have herrors : ∀ s : Stats, (f s).errors = s.errors := fun s =>
    (congrArg Stats.errors (hf s s.errors) : _)
  refine ⟨h.botName, h.version, h.globals, h.locals, ?_, ?_⟩
  · change f c'.stats = { f c.stats with errors := (f c'.stats).errors }
    rw [herrors, h.stats, hf]
  · change List.Forall₂ E (f c.stats).errors (f c'.stats).errors
    rw [herrors, herrors]
    exact h.errors

theorem recordError {s s' : String} (hs : E s s') :
    Recast r K E (c.recordError s) (c'.recordError s') := by
  refine ⟨h.botName, h.version, h.globals, h.locals, ?_, ?_⟩
  · unfold Context.recordError
    rw [h.stats]
  · exact List.rel_append h.errors (.cons hs .nil)

theorem enter : Recast r K E c.enter c'.enter := h.withFrames h.globals (.cons .nil h.locals)

theorem exit : Recast r K E c.exit c'.exit :=
  h.withFrames h.globals (List.forall₂_drop 1 h.locals)

include hr

theorem lookup? (name : String) :
    Option.Rel (Binding.Recast r K) (c.lookup? name) (c'.lookup? (r name)) :=
  (Frame.kin_recast hr name).lookup? h.globals h.locals

theorem has_eq (name : String) : c'.has (r name) = c.has name :=
  (Frame.kin_recast hr name).has_eq h.globals h.locals

/-- A definition is refused in both contexts, or it is made in both. -/
theorem define (name : String) (v : Value) {l l' : Location} (hl : K l l') :
    (c.define name v .local false l = .error (refusal name l) ∧
      c'.define (r name) v .local false l' = .error (refusal (r name) l')) ∨
    ∃ d d', c.define name v .local false l = .ok d ∧
      c'.define (r name) v .local false l' = .ok d' ∧ d.Recast r K E d' := by
  apply (Frame.kin_recast hr name).define h.globals h.locals
  · intro scope
    exact ⟨rfl, rfl, rfl, rfl, hl⟩
  · intro globals globals' locals locals' hg hl
    exact (h.withFrames hg hl).withStats (fun s => { s with definitions := s.definitions + 1 })
      fun _ _ => rfl

/-- An assignment is refused in both contexts, for the same reason, or it is made in both. -/
theorem set (name : String) (v : Value) :
    (c.set name v = .error { cause := .undefined name } ∧
      c'.set (r name) v = .error { cause := .undefined (r name) }) ∨
    (c.set name v = .error { cause := .readonly name } ∧
      c'.set (r name) v = .error { cause := .readonly (r name) }) ∨
    ∃ d d', c.set name v = .ok d ∧ c'.set (r name) v = .ok d' ∧ d.Recast r K E d' :=
  (Frame.kin_recast hr name).set h.globals h.locals v h.withFrames

theorem writeSystem (hK : K ⟨0, 0⟩ ⟨0, 0⟩) {name : String} (hn : r name = name) (v : Value) :
    Recast r K E (c.writeSystem name v) (c'.writeSystem name v) :=
  h.withFrames (h.globals.put hr ⟨hn.symm, rfl, rfl, rfl, hK⟩) h.locals

theorem showing (hK : K ⟨0, 0⟩ ⟨0, 0⟩) (ht : r "timestamp" = "timestamp")
    {shown : List (String × Value)} (hn : ∀ x ∈ shown, r x.1 = x.1) (now : Float) :
    Recast r K E (c.showing shown now) (c'.showing shown now) := by
  apply showing_rel (fun x hx _ _ h => h.writeSystem hr hK ?_ x.2) h
  rcases List.mem_append.mp hx with hx | hx
  · exact hn x hx
  · rw [List.mem_singleton.mp hx]
    exact ht

end Recast

end Context

end AgentScript

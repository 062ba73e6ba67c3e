import AgentScript.Proofs.Context.Overlap

/-! Contexts that agree but for some names: every other name is bound in the same frames, to the same
variable. Whatever a script does to other names can be done to both, and they go on to agree. -/
namespace AgentScript

variable {N : List String}

namespace Frame

/-- Two frames agree on all names that are not listed. -/
def AgreeOff (N : List String) (f g : Frame) : Prop :=
  ∀ name, name ∉ N → g.find? name = f.find? name

theorem AgreeOff.refl (f : Frame) : f.AgreeOff N f := AgreeOn.refl f

theorem AgreeOff.trans {f g h : Frame} (hg : f.AgreeOff N g) (hh : g.AgreeOff N h) :
    f.AgreeOff N h := AgreeOn.trans hg hh

theorem AgreeOff.put {f g : Frame} (h : f.AgreeOff N g) (b : Binding) :
    (f.put b).AgreeOff N (g.put b) := AgreeOn.put h b

theorem kin_agreeOff {name : String} (hn : name ∉ N) : Kin (Frame.AgreeOff N) Eq name name :=
  kin_agreeOn hn

end Frame

namespace Context

/-- As many scopes, the same variables in each but for the names that are listed, and the same figures.
The times of the run are its own. -/
structure AgreeOff (N : List String) (c c' : Context) : Prop where
  botName : c'.botName = c.botName
  version : c'.version = c.version
  globals : c.globals.AgreeOff N c'.globals
  locals : List.Forall₂ (Frame.AgreeOff N) c.locals c'.locals
  stats : c'.stats = { c.stats with start := c'.stats.start, finish := c'.stats.finish }

namespace AgreeOff

theorem refl (c : Context) : c.AgreeOff N c :=
  ⟨rfl, rfl, .refl _, List.forall₂_same.mpr fun f _ => .refl f, rfl⟩

variable {c c' : Context} (h : c.AgreeOff N c')
include h

theorem agreeOn : c.AgreeOn (· ∉ N) c' := ⟨h.globals, h.locals⟩

theorem trans {c'' : Context} (h' : c'.AgreeOff N c'') : c.AgreeOff N c'' := by
  refine ⟨h'.botName.trans h.botName, h'.version.trans h.version, h.globals.trans h'.globals, ?_, ?_⟩
  · exact forall₂_trans h.locals h'.locals fun _ _ _ => Frame.AgreeOff.trans
  · rw [h'.stats, h.stats]

theorem withFrames {globals globals' : Frame} {locals locals' : List Frame}
    (hg : globals.AgreeOff N globals') (hl : List.Forall₂ (Frame.AgreeOff N) locals locals') :
    AgreeOff N { c with globals := globals, locals := locals }
      { c' with globals := globals', locals := locals' } :=
  ⟨h.botName, h.version, hg, hl, h.stats⟩

theorem withStats {stats stats' : Stats}
    (hs : stats' = { stats with start := stats'.start, finish := stats'.finish }) :
    AgreeOff N { c with stats := stats } { c' with stats := stats' } :=
  ⟨h.botName, h.version, h.globals, h.locals, hs⟩

theorem enter : AgreeOff N c.enter c'.enter :=
  h.withFrames h.globals (.cons (.refl []) h.locals)

theorem exit : AgreeOff N c.exit c'.exit :=
  h.withFrames h.globals (List.forall₂_drop 1 h.locals)

theorem countStatement : AgreeOff N c.countStatement c'.countStatement :=
  h.withStats (by rw [h.stats])

theorem countCommand : AgreeOff N c.countCommand c'.countCommand :=
  h.withStats (by rw [h.stats])

theorem recordError (s : String) : AgreeOff N (c.recordError s) (c'.recordError s) :=
  h.withStats (by rw [h.stats])

theorem markStart (now now' : Float) : AgreeOff N (c.markStart now) (c'.markStart now') :=
  h.withStats (by rw [h.stats])

theorem markComplete (now now' : Float) :
    AgreeOff N (c.markComplete now) (c'.markComplete now') :=
  h.withStats (by rw [h.stats])

theorem writeSystem (name : String) (v : Value) :
    AgreeOff N (c.writeSystem name v) (c'.writeSystem name v) :=
  h.withFrames (h.globals.put _) h.locals

theorem showing (shown : List (String × Value)) (now : Float) :
    AgreeOff N (c.showing shown now) (c'.showing shown now) :=
  showing_rel (fun x _ _ _ h => h.writeSystem x.1 x.2) h

variable {name : String} (hn : name ∉ N)
include hn

theorem lookup?_eq : c'.lookup? name = c.lookup? name := h.agreeOn.lookup?_eq hn

theorem has_eq : c'.has name = c.has name := h.agreeOn.has_eq hn

/-- A definition is refused in both contexts, or it is made in both. -/
theorem define (v : Value) (loc : Location) :
    (c.define name v .local false loc = .error (refusal name loc) ∧
      c'.define name v .local false loc = .error (refusal name loc)) ∨
    ∃ d d', c.define name v .local false loc = .ok d ∧
      c'.define name v .local false loc = .ok d' ∧ d.AgreeOff N d' := by
  apply (Frame.kin_agreeOff hn).define h.globals h.locals
  · exact fun _ => rfl
  · intro globals globals' locals locals' hg hl
    apply (h.withFrames hg hl).withStats
    rw [h.stats]

/-- An assignment is refused in both contexts, for the same reason, or it is made in both. -/
theorem set (v : Value) :
    (c.set name v = .error { cause := .undefined name } ∧
      c'.set name v = .error { cause := .undefined name }) ∨
    (c.set name v = .error { cause := .readonly name } ∧
      c'.set name v = .error { cause := .readonly name }) ∨
    ∃ d d', c.set name v = .ok d ∧ c'.set name v = .ok d' ∧ d.AgreeOff N d' :=
  (Frame.kin_agreeOff hn).set h.globals h.locals v h.withFrames

end AgreeOff

/-- Readings change nothing but the names that they write. -/
theorem agreeOff_showing (c : Context) {shown : List (String × Value)} (now : Float)
    (hs : ∀ x ∈ shown, x.1 ∈ readingNames) : c.AgreeOff readingNames (c.showing shown now) := by
  have hframes : c.AgreeOn (· ∉ readingNames) (c.showing shown now) :=
    agreeOn_showing (fun _ hn => hn) c now hs
  have hrest := c.showing_eq shown now
  refine ⟨?_, ?_, hframes.globals, hframes.locals, ?_⟩
  all_goals rw [hrest]

end Context

end AgentScript

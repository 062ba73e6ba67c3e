import AgentScript.Proofs.Context.Kindred
import AgentScript.Proofs.Context.Readings

/-! Contexts that agree on names of some kind and may differ in everything else. What is done to a name
of that kind can be done to both, and they go on to agree; what is done to another name, the kind does
not notice. -/
namespace AgentScript

variable {P : String → Prop}

namespace Frame

/-- Two frames agree on all names of some kind. -/
def AgreeOn (P : String → Prop) (f g : Frame) : Prop :=
  ∀ name, P name → g.find? name = f.find? name

theorem AgreeOn.refl (f : Frame) : f.AgreeOn P f := fun _ _ => rfl

theorem AgreeOn.trans {f g h : Frame} (hg : f.AgreeOn P g) (hh : g.AgreeOn P h) : f.AgreeOn P h :=
  fun name hn => (hh name hn).trans (hg name hn)

theorem AgreeOn.put {f g : Frame} (h : f.AgreeOn P g) (b : Binding) :
    (f.put b).AgreeOn P (g.put b) := by
  intro name hn
  rw [find?_put, find?_put, h name hn]

/-- A name that frames agree on goes together with itself. -/
theorem kin_agreeOn {name : String} (hn : P name) : Kin (Frame.AgreeOn P) Eq name name where
  find? {f g} h := by
    rw [h name hn]
    cases f.find? name with
    | none => exact .none
    | some b => exact .some rfl
  put h hab := by
    cases hab
    exact h.put _
  readonly hab := by
    rw [hab]
  assigned v hab := by
    rw [hab]

/-- A variable of another name is not noticed. -/
theorem agreeOn_put (f : Frame) {b : Binding} (hb : ¬ P b.name) : f.AgreeOn P (f.put b) := by
  intro name hn
  have hne : b.name ≠ name := fun he => hb (he ▸ hn)
  rw [find?_put, if_neg hne]

theorem forall₂_agreeOn_refl (fs : List Frame) : List.Forall₂ (Frame.AgreeOn P) fs fs :=
  List.forall₂_same.mpr fun f _ => .refl f

theorem name_of_find? {f : Frame} {name : String} {b : Binding} (h : f.find? name = some b) :
    b.name = name := by
  simpa using List.find?_some h

/-- A variable that is the only one of its name is found under it. -/
theorem find?_eq_of_mem {f : Frame} {b : Binding} (hb : b ∈ f)
    (h : ∀ a ∈ f, a.name = b.name → a = b) : f.find? b.name = some b := by
  cases hf : f.find? b.name with
  | some a => rw [h a (List.mem_of_find?_eq_some hf) (name_of_find? hf)]
  | none => exact absurd (List.find?_eq_none.mp hf b hb) (by simp)

end Frame

namespace Context

/-- As many scopes, and the same variables of the names of some kind in each. -/
structure AgreeOn (P : String → Prop) (c c' : Context) : Prop where
  globals : c.globals.AgreeOn P c'.globals
  locals : List.Forall₂ (Frame.AgreeOn P) c.locals c'.locals

namespace AgreeOn

theorem refl (c : Context) : c.AgreeOn P c := ⟨.refl _, Frame.forall₂_agreeOn_refl _⟩

variable {c c' : Context} (h : c.AgreeOn P c')
include h

theorem trans {c'' : Context} (h' : c'.AgreeOn P c'') : c.AgreeOn P c'' :=
  ⟨h.globals.trans h'.globals, forall₂_trans h.locals h'.locals fun _ _ _ => Frame.AgreeOn.trans⟩

theorem withStats (stats stats' : Stats) :
    AgreeOn P { c with stats := stats } { c' with stats := stats' } := ⟨h.globals, h.locals⟩

theorem enter : AgreeOn P c.enter c'.enter := ⟨h.globals, .cons (.refl []) h.locals⟩

theorem exit : AgreeOn P c.exit c'.exit := ⟨h.globals, List.forall₂_drop 1 h.locals⟩

theorem writeSystem (name : String) (v : Value) :
    AgreeOn P (c.writeSystem name v) (c'.writeSystem name v) :=
  ⟨h.globals.put _, h.locals⟩

theorem showing (shown : List (String × Value)) (now : Float) :
    AgreeOn P (c.showing shown now) (c'.showing shown now) :=
  showing_rel (fun x _ _ _ h => h.writeSystem x.1 x.2) h

variable {name : String} (hn : P name)
include hn

theorem lookup?_eq : c'.lookup? name = c.lookup? name := by
  have hl := (Frame.kin_agreeOn hn).lookup? h.globals h.locals
  generalize c.lookup? name = a at hl ⊢
  generalize c'.lookup? name = b at hl ⊢
  cases hl with
  | none => rfl
  | some hab => rw [hab]

theorem has_eq : c'.has name = c.has name :=
  (Frame.kin_agreeOn hn).has_eq h.globals h.locals

end AgreeOn

/-! One context before and after a change that is of no account to the names of some kind. -/

theorem agreeOn_define {c c' : Context} {name : String} (hn : ¬ P name) {v : Value} {l : Location}
    (h : c.define name v .local false l = .ok c') : c.AgreeOn P c' := by
  unfold define at h
  dsimp only at h
  split at h
  · next frame rest _ hl =>
    split at h
    · cases h
    · cases h
      refine ⟨.refl _, ?_⟩
      rw [hl]
      exact .cons (Frame.agreeOn_put frame hn) (Frame.forall₂_agreeOn_refl rest)
  · split at h
    · cases h
    · cases h
      exact ⟨Frame.agreeOn_put c.globals hn, Frame.forall₂_agreeOn_refl _⟩

theorem agreeOn_assignIn {name : String} (hn : ¬ P name) (v : Value) (fs : List Frame) :
    List.Forall₂ (Frame.AgreeOn P) fs (assignIn name v fs) := by
  induction fs with
  | nil => exact .nil
  | cons f fs ih =>
    unfold assignIn
    split
    · next b hb =>
      have hb : ¬ P b.name := by rwa [Frame.name_of_find? hb]
      exact .cons (Frame.agreeOn_put f hb) (Frame.forall₂_agreeOn_refl fs)
    · exact .cons (.refl f) ih

theorem agreeOn_set {c c' : Context} {name : String} (hn : ¬ P name) {v : Value}
    (h : c.set name v = .ok c') : c.AgreeOn P c' := by
  unfold set at h
  split at h
  · cases h
  · next b hb =>
    split at h
    · cases h
    · split at h
      · cases h
        exact ⟨.refl _, agreeOn_assignIn hn v _⟩
      · cases h
        obtain ⟨f, -, hf⟩ := List.exists_of_findSome?_eq_some hb
        have hb : ¬ P b.name := by rwa [Frame.name_of_find? hf]
        exact ⟨Frame.agreeOn_put c.globals hb, Frame.forall₂_agreeOn_refl _⟩

/-- Readings change nothing but the names that they write. -/
theorem agreeOn_showing (hP : ∀ name, P name → name ∉ readingNames) (c : Context)
    {shown : List (String × Value)} (now : Float) (hs : ∀ x ∈ shown, x.1 ∈ readingNames) :
    c.AgreeOn P (c.showing shown now) := by
  constructor
  · intro name hn
    refine globals_showing (fun ht => hP name hn ?_) fun x hx he => hP name hn ?_
    · rw [ht]
      exact timestamp_mem_readingNames
    · rw [← he]
      exact hs x hx
  · rw [c.showing_eq]
    exact Frame.forall₂_agreeOn_refl _

theorem agreeOn_update (hP : ∀ name, P name → name ∉ readingNames) {c c' : Context}
    {s : Option Snapshot} {now : Float} (h : c.update s now = .ok c') : c.AgreeOn P c' := by
  cases s with
  | none =>
    rw [update_none] at h
    cases h
    exact agreeOn_showing hP c now fun _ hx => nomatch hx
  | some s =>
    rw [update_some] at h
    obtain ⟨shown, hs, rfl⟩ := map_eq_ok h
    exact agreeOn_showing hP c now fun _ hx => Snapshot.names_toVariables hs hx

end Context

end AgentScript

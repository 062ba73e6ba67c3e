import AgentScript.Proofs.Context.Overlap
import AgentScript.Proofs.Machine.Recast

/-! A run depends on no variables but those that its program mentions, and touches no others but the
readings at its start. -/
namespace AgentScript

variable {α β : Type}

/-- A name stands somewhere in the program: it is declared, assigned or read there. -/
def Program.Mentions (p : Program) (name : String) : Prop := ∃ n ∈ p.labels, n.key = .ok name

/-- A name that a run has no business with: the program does not mention it, and no reading writes
it. -/
def Program.Spares (p : Program) (name : String) : Prop :=
  ¬ p.Mentions name ∧ name ∉ readingNames

/-- What is added to the figures of a run. -/
structure Growth where
  statements : Nat := 0
  commands : Nat := 0
  definitions : Nat := 0
  errors : List String := []

namespace Growth

/-- The figures grew by so much. The times of the run are its own. -/
structure Between (g : Growth) (s t : Stats) : Prop where
  statements : t.statements = s.statements + g.statements
  commands : t.commands = s.commands + g.commands
  definitions : t.definitions = s.definitions + g.definitions
  errors : t.errors = s.errors ++ g.errors

theorem between_times (s : Stats) (start : Float) (finish : Option Float) :
    Between {} s { s with start := start, finish := finish } :=
  ⟨rfl, rfl, rfl, (List.append_nil _).symm⟩

theorem between_statement (s : Stats) :
    Between { statements := 1 } s { s with statements := s.statements + 1 } :=
  ⟨rfl, rfl, rfl, (List.append_nil _).symm⟩

theorem between_command (s : Stats) :
    Between { commands := 1 } s { s with commands := s.commands + 1 } :=
  ⟨rfl, rfl, rfl, (List.append_nil _).symm⟩

theorem between_definition (s : Stats) :
    Between { definitions := 1 } s { s with definitions := s.definitions + 1 } :=
  ⟨rfl, rfl, rfl, (List.append_nil _).symm⟩

theorem between_error (s : Stats) (text : String) :
    Between { errors := [text] } s { s with errors := s.errors ++ [text] } := ⟨rfl, rfl, rfl, rfl⟩

theorem Between.trans {g g' : Growth} {s t u : Stats} (h : g.Between s t) (h' : g'.Between t u) :
    Between ⟨g.statements + g'.statements, g.commands + g'.commands,
      g.definitions + g'.definitions, g.errors ++ g'.errors⟩ s u where
  statements := by rw [h'.statements, h.statements, Nat.add_assoc]
  commands := by rw [h'.commands, h.commands, Nat.add_assoc]
  definitions := by rw [h'.definitions, h.definitions, Nat.add_assoc]
  errors := by rw [h'.errors, h.errors, List.append_assoc]

end Growth

/-- The figures of two runs have grown by the same since some time. -/
def Stats.GrownAlike (base base' s s' : Stats) : Prop :=
  ∃ g : Growth, g.Between base s ∧ g.Between base' s'

theorem Stats.GrownAlike.grow {base base' s s' t t' : Stats} (h : GrownAlike base base' s s')
    {g : Growth} (ht : g.Between s t) (ht' : g.Between s' t') : GrownAlike base base' t t' := by
  obtain ⟨g₀, hs, hs'⟩ := h
  exact ⟨_, hs.trans ht, hs'.trans ht'⟩

namespace Tie

/-! Two runs of one program in contexts that agree on names of some kind. -/

variable {P : String → Prop} {base base' : Stats}

/-- The contexts agree on the names, and their figures have grown alike. -/
structure Overlap (P : String → Prop) (base base' : Stats) (c c' : Context) : Prop where
  frames : c.AgreeOn P c'
  stats : base.GrownAlike base' c.stats c'.stats

def overlap (P : String → Prop) (base base' : Stats) : Tie β where
  places := Eq
  labels n n' := n' = n ∧ ∀ key, n.key = .ok key → P key
  errors := Eq
  foreign _ := True
  contexts := Overlap P base base'
  bots b b' := b' = b
  outputs _ _ := True

namespace Overlap

variable {c c' : Context} (h : Overlap P base base' c c')
include h

theorem withFrames {d d' : Context} (hd : d.AgreeOn P d') (hs : d.stats = c.stats)
    (hs' : d'.stats = c'.stats) : Overlap P base base' d d' := by
  refine ⟨hd, ?_⟩
  rw [hs, hs']
  exact h.stats

theorem withStats {s s' : Stats} {g : Growth} (hs : g.Between c.stats s)
    (hs' : g.Between c'.stats s') :
    Overlap P base base' { c with stats := s } { c' with stats := s' } :=
  ⟨h.frames.withStats s s', h.stats.grow hs hs'⟩

/-- A definition of a name of the kind. -/
theorem define {name : String} (hn : P name) (v : Value) (l : Location) :
    (overlap (β := β) P base base').Agree (Overlap P base base')
      ((c.define name v .local false l).mapError .error)
      ((c'.define name v .local false l).mapError .error) := by
  have hnew : ∀ scope, (⟨name, v, scope, false, l⟩ : Binding) = ⟨name, v, scope, false, l⟩ :=
    fun _ => rfl
  rcases (Frame.kin_agreeOn hn).define h.frames.globals h.frames.locals v hnew
    (R := Overlap P base base') (fun hg hl => ⟨⟨hg, hl⟩, h.stats.grow
      (Growth.between_definition _) (Growth.between_definition _)⟩)
    with ⟨hd, hd'⟩ | ⟨d, d', hd, hd', hdd⟩
  · rw [hd, hd']
    exact .error (.error rfl)
  · rw [hd, hd']
    exact .ok hdd

/-- An assignment to a name of the kind. -/
theorem set {name : String} (hn : P name) (v : Value) :
    (overlap (β := β) P base base').Agree (Overlap P base base')
      ((c.set name v).mapError .error) ((c'.set name v).mapError .error) := by
  rcases (Frame.kin_agreeOn hn).set h.frames.globals h.frames.locals v
    (R := Overlap P base base') (fun hg hl => h.withFrames ⟨hg, hl⟩ rfl rfl)
    with ⟨hs, hs'⟩ | ⟨hs, hs'⟩ | ⟨d, d', hs, hs', hdd⟩
  · rw [hs, hs']
    exact .error (.error rfl)
  · rw [hs, hs']
    exact .error (.error rfl)
  · rw [hs, hs']
    exact .ok hdd

/-- An iteration is counted in a frame of its own, under a name of whatever kind. -/
theorem index (v : Value) :
    (overlap (β := β) P base base').Agree (Overlap P base base')
      ((c.enter.define Run.indexName v .local false ⟨0, 0⟩).mapError .error)
      ((c'.enter.define Run.indexName v .local false ⟨0, 0⟩).mapError .error) := by
  refine .ok ⟨⟨h.frames.globals, .cons (.refl _) h.frames.locals⟩, ?_⟩
  exact h.stats.grow (Growth.between_definition _) (Growth.between_definition _)

end Overlap

instance : (overlap P base base' : Tie β).Steady where
  push _ _ := trivial
  locate _ _ := trivial

variable [Port β] [AloofPort β]

instance : (overlap P base base' : Tie β).Lawful where
  tell _ _ _ := trivial
  call operation m m' hm := ends_call operation hm hm.bots rfl (fun _ => trivial) fun _ _ => trivial
  foreign _ := rfl
  own _ := rfl
  located he hl := by
    cases he
    cases hl
    rfl
  read {c c' n n'} hc hn := by
    obtain ⟨rfl, hkind⟩ := hn
    exact agree_read_label (fun _ => rfl) fun key hk => hc.frames.lookup?_eq (hkind key hk)
  declare {c c' n n' l l'} v hc hn hl := by
    obtain ⟨rfl, hkind⟩ := hn
    cases hl
    exact agree_declare_label fun key hk => hc.define (hkind key hk) v l
  assign {c c' n n'} v hc hn := by
    obtain ⟨rfl, hkind⟩ := hn
    exact agree_assign_label (fun _ => rfl) (fun key hk => hc.frames.has_eq (hkind key hk))
      fun key hk => hc.set (hkind key hk) v
  index v hc := hc.index v
  enter hc := hc.withFrames hc.frames.enter rfl rfl
  exit hc := hc.withFrames hc.frames.exit rfl rfl
  countStatement hc := hc.withStats (Growth.between_statement _) (Growth.between_statement _)
  countCommand hc := hc.withStats (Growth.between_command _) (Growth.between_command _)

instance : (overlap P base base' : Tie β).Throughout where
  outputs _ _ := trivial
  showing {c c' shown} now hc _ := by
    refine hc.withFrames (hc.frames.showing shown now) ?_ ?_
    · rw [c.showing_eq]
    · rw [c'.showing_eq]
  markStart now hc := hc.withStats (Growth.between_times _ now none) (Growth.between_times _ now none)
  markComplete now hc :=
    hc.withStats (Growth.between_times _ _ (some now)) (Growth.between_times _ _ (some now))
  recordError hc he := by
    cases he
    exact hc.withStats (Growth.between_error _ _) (Growth.between_error _ _)
  settle hb he := by
    cases hb
    cases he
    rfl

end Tie

namespace Run

open RunOn (after)

variable {P : String → Prop}

/-! One run and the names of a kind that it has no business with. -/

instance : Context.Lasting (Context.AgreeOn P) := ⟨.refl, fun h h' => h.trans h'⟩

/-- Parts that leave the variables of a kind as they are. -/
abbrev Spares (P : String → Prop) (α : Type) (part : RunOn β α) : Prop :=
  Keeps (OnContext (Context.AgreeOn P)) part

theorem spares_inScope {part : RunOn β Unit} (h : Spares P Unit part) :
    Spares P Unit (inScope part) := by
  intro m
  rw [OnContext, after_inScope]
  have hinner : m.context.enter.AgreeOn P _ := h { m with context := m.context.enter }
  exact hinner.exit

/-- The frame that a loop counts in is dropped after the iteration. -/
theorem spares_iteration {body : RunOn β Unit} (h : Spares P Unit body) (i : Nat) :
    Spares P Unit (iteration body i) := by
  intro m
  let count : Context → Except Trouble Context := fun c =>
    (c.define indexName (.number (Float.ofNat i)) .local false ⟨0, 0⟩).mapError .error
  have hcount : m.context.AgreeOn P
      ((changeContext count).after { m with context := m.context.enter }).context.exit :=
    (Context.AgreeOn.refl m.context).withStats m.context.stats _
  have hbody : Context.AgreeOn P
      ((changeContext count).after { m with context := m.context.enter }).context
      ((changeContext count >>= fun _ => body).after { m with context := m.context.enter }).context :=
    keeps_rest (fun _ => h) _
  rw [OnContext, iteration, after_inScope]
  exact hcount.trans hbody.exit

/-- Other names are free to be changed. -/
theorem spares_names : NameLaw (fun n => ∀ key, n.key = .ok key → ¬ P key) (Spares P (β := β)) where
  declare name v loc hn := keeps_changeContext fun m c h => by
    obtain ⟨key, hk, h⟩ := bind_eq_ok h
    exact Context.agreeOn_define (hn key (mapError_eq_ok hk)) (mapError_eq_ok h)
  assign name v hn := keeps_changeContext fun m c h => by
    obtain ⟨key, hk, h⟩ := bind_eq_ok h
    split at h
    · exact Context.agreeOn_set (hn key (mapError_eq_ok hk)) (mapError_eq_ok h)
    · cases h

variable [Port β] [LawfulPort β]

instance : BlockLaw (Spares P (β := β)) where
  checkStop := keeps_checkStop
  inScope := spares_inScope
  iteration i h := spares_iteration h i
  last _ m := (Context.AgreeOn.refl m.context).withStats m.context.stats _
  count := keeps_changeContext fun m c h => by
    cases h
    exact (Context.AgreeOn.refl m.context).withStats m.context.stats _

theorem spares_program (p : Program) {body : Body} (hp : p.body = .ok body) :
    Spares p.Spares Unit (program body : RunOn β Unit) := by
  have hlabels : ∀ n ∈ body.labels, ∀ key, n.key = .ok key → ¬ p.Spares key := by
    intro n hn key hk hs
    cases p with
    | program l b =>
      cases hp
      exact hs.1 ⟨n, hn, hk⟩
    | misfit tree => cases hp
  refine StepLaw.bind (P := Spares p.Spares) (law_refresh (P := Spares p.Spares) fun s now => ?_)
    fun _ => law_block_of (P := Spares p.Spares) spares_names body hlabels
  exact keeps_changeContext fun m c h =>
    Context.agreeOn_update (fun name hn => hn.2) (mapError_eq_ok h)

end Run

namespace Machine

/-- A program is run twice on one bot at one time, from contexts of which one has the same variables
as the other in each scope, as far as the program mentions them. Both runs come to the same. What
they leave differs at most in the output and in the contexts, and there the variables that the
program mentions are the same again and the figures have grown by the same. Variables that it does
not mention, the readings apart, are what they were in the one context and in the other. -/
theorem execute_mentioned [Port β] [AloofPort β] (m : Machine β) (p : Program) (c : Context)
    (h : m.context.AgreeOn p.Mentions c) :
    let one := m.execute p
    let other := { m with context := c }.execute p
    other.1 = one.1 ∧ ∃ context lines growth,
      other.2 = { one.2 with context := context, output := lines } ∧
      one.2.context.AgreeOn p.Mentions context ∧
      Growth.Between growth m.context.stats one.2.context.stats ∧
      Growth.Between growth c.stats context.stats ∧
      m.context.AgreeOn p.Spares one.2.context ∧
      c.AgreeOn p.Spares context := by
  intro one other
  let T : Tie β := .overlap p.Mentions m.context.stats c.stats
  have hmatch : p.Match T.places T.labels p :=
    Program.match_refl (fun _ => rfl) fun n hn => ⟨rfl, fun key hk => ⟨n, hn, hk⟩⟩
  have hstart : T.contexts m.context c :=
    ⟨h, {}, Growth.between_times _ _ _, Growth.between_times _ _ _⟩
  have hm : T.Machines m { m with context := c } := ⟨rfl, hstart, trivial⟩
  obtain ⟨houtcomes, hmachines⟩ := Tie.execute_twins hmatch hm
  have spares : ∀ m' : Machine β, m'.context.AgreeOn p.Spares (m'.execute p).2.context :=
    execute_keeps (C := Context.AgreeOn p.Spares)
      (fun d stats => (Context.AgreeOn.refl d).withStats d.stats stats)
      fun _ hbody => Run.spares_program p hbody
  have hone : m.context.AgreeOn p.Spares one.2.context := spares m
  have hother : c.AgreeOn p.Spares other.2.context := spares { m with context := c }
  refine ⟨houtcomes.eq fun he => he.symm, ?_⟩
  change T.Machines one.2 other.2 at hmachines
  generalize other.2 = final at hmachines hother ⊢
  obtain ⟨hb, hc, -⟩ := hmachines
  cases hb
  obtain ⟨growth, hgrown, hgrown'⟩ := hc.stats
  exact ⟨_, _, growth, rfl, hc.frames, hgrown, hgrown', hone, hother⟩

/-- A script counts a variable up, in a block that holds a note beside it or in one that holds
none. -/
theorem execute_mentioned_counter :
    let x : Binding := ⟨"x", .number 1, .local, false, ⟨1, 1⟩⟩
    let note : Binding := ⟨"note", .string "mine", .local, true, ⟨2, 1⟩⟩
    let m : Machine :=
      { fresh {} {} 0 with context := { Context.fresh "Bot" "1" 0 with locals := [[note, x]] } }
    let c : Context := { Context.fresh "Bot" "1" 5 with locals := [[x]] }
    let p : Program := .ofStatements [.assign ⟨1, 1⟩ (.word "x")
      (.binary ⟨1, 7⟩ .add (.reference ⟨1, 5⟩ (.word "x")) (.number ⟨1, 9⟩ 1))]
    let one := m.execute p
    let other := { m with context := c }.execute p
    m.context.AgreeOn p.Mentions c ∧ other.1 = one.1 ∧ ∃ context lines growth,
      other.2 = { one.2 with context := context, output := lines } ∧
      one.2.context.AgreeOn p.Mentions context ∧
      Growth.Between growth m.context.stats one.2.context.stats ∧
      Growth.Between growth c.stats context.stats ∧
      m.context.AgreeOn p.Spares one.2.context ∧
      c.AgreeOn p.Spares context := by
  intro x note m c p
  have hnames : ∀ name, p.Mentions name → name = "x" := by
    rintro name ⟨n, hn, hk⟩
    have hlabels : p.labels = [.word "x", .word "x"] := rfl
    rw [hlabels] at hn
    have hword : n = .word "x" := by simpa using hn
    rw [hword] at hk
    cases hk
    rfl
  have hagree : m.context.AgreeOn p.Mentions c := by
    refine ⟨fun name hn => ?_, .cons (fun name hn => ?_) .nil⟩
    · rw [hnames name hn]
      rfl
    · rw [hnames name hn]
      rfl
  exact ⟨hagree, execute_mentioned m p c hagree⟩

end Machine

end AgentScript

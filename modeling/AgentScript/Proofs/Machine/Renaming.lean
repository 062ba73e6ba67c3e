import AgentScript.Proofs.Machine.Recast
import AgentScript.Proofs.Syntax.Proper

/-! Variables under other names. A script that calls its variables something else, in a context where
they are called so, does the same; only messages that name a variable give its other name. -/
namespace AgentScript

/-- A renaming of variables. No two names become one, and the names that a run itself writes stay as
they are. -/
structure Renaming where
  name : String → String
  injective : Function.Injective name
  index : name Run.indexName = Run.indexName
  reading : ∀ n ∈ readingNames, name n = n

/-- A name that no run writes by itself. -/
structure FreeName (name : String) : Prop where
  index : name ≠ Run.indexName
  reading : name ∉ readingNames

def Renaming.swap {a b : String} (ha : FreeName a) (hb : FreeName b) : Renaming where
  name := Equiv.swap a b
  injective := (Equiv.swap a b).injective
  index := Equiv.swap_apply_of_ne_of_ne ha.index.symm hb.index.symm
  reading n hn := by
    have hna : n ≠ a := fun he => ha.reading (he ▸ hn)
    have hnb : n ≠ b := fun he => hb.reading (he ▸ hn)
    exact Equiv.swap_apply_of_ne_of_ne hna hnb

variable {β : Type} (r : Renaming)

/-- Data in the place of a name are no names to change. -/
def Label.rename : Label → Label
  | word s => word (r.name s)
  | datum v => datum v

def Program.rename (p : Program) : Program := p.relabel (Label.rename r)

def Binding.rename (b : Binding) : Binding := { b with name := r.name b.name }

def Frame.rename (f : Frame) : Frame := f.map (Binding.rename r)

namespace Context

def rename (c : Context) : Context :=
  { c with globals := c.globals.rename r, locals := c.locals.map (Frame.rename r) }

def withErrors (c : Context) (errors : List String) : Context :=
  { c with stats := { c.stats with errors := errors } }

end Context

def Machine.rename (m : Machine β) : Machine β := { m with context := m.context.rename r }

def Cause.rename : Cause → Cause
  | undefined n => undefined (r.name n)
  | readonly n => readonly (r.name n)
  | c => c

def ScriptError.rename (e : ScriptError) : ScriptError := { e with cause := e.cause.rename r }

theorem Cause.rename_of_nameless {c : Cause} (h : c.nameless) : c.rename r = c := by
  cases c with
  | undefined n => cases h
  | readonly n => cases h
  | _ => rfl

theorem Cause.nameless_of_own {c : Cause} (h : c.own) : c.nameless := by
  cases c with
  | undefined n => cases h
  | readonly n => cases h
  | _ => rfl

namespace ScriptError

theorem rename_of_nameless {e : ScriptError} (h : e.cause.nameless) : e.rename r = e := by
  unfold rename
  rw [Cause.rename_of_nameless r h]

theorem rename_locate (e : ScriptError) (l : Location) :
    (e.rename r).locate l = (e.locate l).rename r := by
  unfold locate
  rw [show (e.rename r).hasPosition = e.hasPosition from rfl]
  split <;> rfl

end ScriptError

theorem Label.renames_word (s : String) : (Label.word s).Renames r.name (.word (r.name s)) :=
  ⟨rfl, rfl⟩

/-- A program matches itself renamed, as long as data in it stand for no name that changes. -/
theorem Program.match_rename {p : Program}
    (h : ∀ v, .datum v ∈ p.labels → (Label.datum v).Renames r.name (.datum v)) :
    p.Match Eq (Label.Renames r.name) (p.rename r) := by
  refine match_relabel (fun _ => rfl) fun n hn => ?_
  cases n with
  | word s => exact Label.renames_word r s
  | datum v => exact h v hn

namespace Context

variable {E : String → String → Prop}

theorem recast_frame (f : Frame) : f.Recast r.name Eq (f.rename r) := by
  induction f with
  | nil => exact .nil
  | cons b f ih => exact .cons ⟨rfl, rfl, rfl, rfl, rfl⟩ ih

theorem recast_rename (hE : ∀ s, E s s) (c : Context) : c.Recast r.name Eq E (c.rename r) where
  botName := rfl
  version := rfl
  globals := recast_frame r c.globals
  locals := List.forall₂_map_right_iff.mpr (List.forall₂_same.mpr fun f _ => recast_frame r f)
  stats := rfl
  errors := List.forall₂_same.mpr fun s _ => hE s

theorem eq_rename_frame {f g : Frame} (h : f.Recast r.name Eq g) : g = f.rename r := by
  induction h with
  | nil => rfl
  | @cons a b f g hab _ ih =>
    obtain ⟨hname, hvalue, hscope, hreadonly, hloc⟩ := hab
    obtain ⟨name, value, scope, readonly, loc⟩ := b
    subst hname hvalue hscope hreadonly hloc
    rw [ih]
    rfl

theorem eq_rename_frames {fs gs : List Frame} (h : List.Forall₂ (Frame.Recast r.name Eq) fs gs) :
    gs = fs.map (Frame.rename r) := by
  induction h with
  | nil => rfl
  | cons hfg _ ih => rw [List.map_cons, ← ih, eq_rename_frame r hfg]

theorem Recast.eq_rename {c c' : Context} (h : c.Recast r.name Eq E c') :
    c' = (c.rename r).withErrors c'.stats.errors := by
  obtain ⟨botName, version, globals, locals, stats⟩ := c'
  obtain ⟨hbot, hversion, hglobals, hlocals, hstats, -⟩ := h
  have hg : globals = c.globals.rename r := eq_rename_frame r hglobals
  have hl : locals = c.locals.map (Frame.rename r) := eq_rename_frames r hlocals
  dsimp only at hbot hversion hstats
  rw [hbot, hversion, hg, hl, hstats]
  rfl

end Context

section

variable [Port β] [AloofPort β]

def Renaming.recasting : Recasting β where
  rename := r.name
  labels := Label.Renames r.name
  places := Eq
  definitions := Eq
  errors e e' := e' = e.rename r
  foreign e := e.cause.nameless
  bots _ := True
  injective := r.injective
  index := r.index
  reading := r.reading
  labelled := id
  placed := id
  nowhere := rfl
  own h := (ScriptError.rename_of_nameless r (Cause.nameless_of_own h)).symm
  undefined _ := rfl
  readonly _ := rfl
  refusal _ _ _ hl := by
    rw [hl]
    rfl
  located {e _ l _} he hl := by
    rw [he, ← hl]
    exact e.rename_locate r l
  reported h := (ScriptError.rename_of_nameless r h).symm
  relocated l h := by
    rw [ScriptError.cause_locate]
    exact h
  settled {e e' b} he _ := by
    rw [he]
    refine ⟨?_, trivial⟩
    cases hc : e.cause.nameless with
    | true => rw [ScriptError.rename_of_nameless r hc]
    | false =>
      have spared : ∀ e' : ScriptError, e'.cause.nameless = false → Port.settle e' b = b := by
        intro e' he'
        refine AloofPort.settle b fun request text ht => ?_
        rw [ht] at he'
        cases he'
      have hrenamed : (e.rename r).cause.nameless = false := by
        unfold ScriptError.rename
        cases h : e.cause with
        | undefined n => rfl
        | readonly n => rfl
        | _ =>
          rw [h] at hc
          cases hc
      rw [spared e hc, spared _ hrenamed]
  keeps _ _ _ := trivial
  reports operation m m' e _ he := by
    have hm : (Tie.apart m.context m.context).Machines m m := ⟨rfl, ⟨rfl, rfl⟩, trivial⟩
    have hends := AloofPort.level operation m.context m.context hm
    rw [he] at hends
    cases hends with
    | trouble ht _ =>
      cases ht with
      | error h => exact h

/-- Renaming the variables of a program and of the context that it starts in changes nothing else,
with any bot that is aloof. Both runs break off by the same fault, succeed, are stopped, or raise the
same error but for the name that it is about. Bot, clock and all else of the machines are the same in
the end, and so is the context but for the names and for the text of that error. -/
theorem Machine.execute_rename (m : Machine β) {p : Program}
    (h : ∀ v, .datum v ∈ p.labels → (Label.datum v).Renames r.name (.datum v)) :
    (((∀ text, (m.execute p).1 ≠ .ok (.error text)) ∧
        ((m.rename r).execute (p.rename r)).1 = (m.execute p).1) ∨
      ∃ e, m.Raises p e ∧ (m.rename r).Raises (p.rename r) (e.rename r)) ∧
    ∃ lines, ((m.rename r).execute (p.rename r)).2 =
      { (m.execute p).2 with
        context := ((m.execute p).2.context.rename r).withErrors
          (m.context.stats.errors ++ Outcome.recorded ((m.rename r).execute (p.rename r)).1)
        output := lines } := by
  have hm : (r.recasting (β := β)).tie.Machines m (m.rename r) :=
    ⟨⟨rfl, trivial⟩, Context.recast_rename r .same m.context, trivial⟩
  obtain ⟨houtcomes, hmachines⟩ := Tie.execute_twins (Program.match_rename r h) hm
  constructor
  · cases houtcomes with
    | same hne he => exact .inl ⟨hne, he⟩
    | error he he' hee =>
      right
      rw [hee] at he'
      exact ⟨_, he, he'⟩
  · have herrors := (m.rename r).execute_errors (p.rename r)
    generalize (m.rename r).execute (p.rename r) = whole at hmachines herrors ⊢
    obtain ⟨outcome, m'⟩ := whole
    dsimp only at hmachines herrors ⊢
    obtain ⟨hb, hc, -⟩ := hmachines
    rename_i lines
    refine ⟨lines, ?_⟩
    have hcontext := Context.Recast.eq_rename r hc
    have hrecord : (m.rename r).context.stats.errors = m.context.stats.errors := rfl
    rw [hrecord] at herrors
    unfold Machine.swap at herrors ⊢
    dsimp only at herrors
    rw [← herrors, ← hcontext, hb.1]

theorem freeName_x : FreeName "x" := ⟨by decide, by decide⟩

theorem freeName_y : FreeName "y" := ⟨by decide, by decide⟩

/-- A script that reads what nobody defined is told the name that it read. -/
theorem Machine.execute_rename_missing :
    let r := Renaming.swap freeName_x freeName_y
    let m : Machine := .fresh {} {} 0
    let p : Program := .ofStatements [.evaluate ⟨1, 1⟩ (.reference ⟨1, 1⟩ (.word "x"))]
    (∀ v, .datum v ∈ p.labels → (Label.datum v).Renames r.name (.datum v)) ∧
      p.rename r = .ofStatements [.evaluate ⟨1, 1⟩ (.reference ⟨1, 1⟩ (.word "y"))] ∧
      (((∀ text, (m.execute p).1 ≠ .ok (.error text)) ∧
          ((m.rename r).execute (p.rename r)).1 = (m.execute p).1) ∨
        ∃ e, m.Raises p e ∧ (m.rename r).Raises (p.rename r) (e.rename r)) ∧
      ∃ lines, ((m.rename r).execute (p.rename r)).2 =
        { (m.execute p).2 with
          context := ((m.execute p).2.context.rename r).withErrors
            (m.context.stats.errors ++ Outcome.recorded ((m.rename r).execute (p.rename r)).1)
          output := lines } := by
  intro r m p
  have hwords : ∀ v, .datum v ∈ p.labels → (Label.datum v).Renames r.name (.datum v) := by
    intro v hv
    have hlabels : p.labels = [.word "x"] := rfl
    rw [hlabels] at hv
    cases List.mem_singleton.mp hv
  have hrenamed : p.rename r =
      .ofStatements [.evaluate ⟨1, 1⟩ (.reference ⟨1, 1⟩ (.word (Equiv.swap "x" "y" "x")))] := rfl
  rw [Equiv.swap_apply_left] at hrenamed
  exact ⟨hwords, hrenamed, m.execute_rename r hwords⟩

end

end AgentScript

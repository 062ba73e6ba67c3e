import AgentScript.Proofs.Machine.Heed
import AgentScript.Proofs.Machine.Scope
import AgentScript.Proofs.Machine.Tracking

/-! Requests to stop: they take effect between statements and iterations, they let a command finish,
and what they leave of a run is a beginning of it. -/
namespace AgentScript

namespace Context

def SameErrors (c c' : Context) : Prop := c'.stats.errors = c.stats.errors

end Context

def Remembers (m m' : Machine) : Prop := m.stopRequested = true → m'.stopRequested = true

namespace Run

open RunOn (after)

variable {β : Type} [Port β] [LawfulPort β]

instance : Context.Lasting Context.SameErrors := ⟨fun _ => rfl, fun h h' => h'.trans h⟩

instance : AllowsStatements (OnContext Context.SameErrors : Machine β → Machine β → Prop) where
  last _ _ := rfl
  count _ := rfl
  define _ _ _ _ _ h := Context.define_errors h
  assign _ _ _ _ h := congrArg Stats.errors (Context.set_stats h)
  scope _ _ h := h

instance : AllowsBot Remembers where
  refl _ h := h
  trans h h' hm := h' (h hm)
  output _ _ h := h
  record m call h := by
    obtain ⟨flag, at?, he, hf⟩ := m.record_eq call
    rw [he]
    exact hf h
  effect _ _ _ h := h
  wait m time h := by
    obtain ⟨flag, probes, later, he, hf⟩ := m.waitUntil_eq time
    rw [he]
    exact hf h

instance : AllowsStatements Remembers where
  last _ _ h := h
  count _ h := h
  define _ _ _ _ _ _ h := h
  assign _ _ _ _ _ h := h
  scope _ _ h := h

theorem program_errors (m : Machine β) (b : Body) :
    ((program b).after m).context.stats.errors = m.context.stats.errors := by
  refine law_program (P := fun _ => Keeps (OnContext Context.SameErrors)) (fun s now => ?_) b m
  refine keeps_changeContext fun m c h => ?_
  exact congrArg Stats.errors (Context.update_locals (mapError_eq_ok h)).2

end Run

/-- What a stop leaves of a run on some machine. -/
structure CutShort (m : Machine) (cut whole : Except Fault Outcome × Machine) : Prop where
  outcome : cut.1 = .ok .stopped
  calls : cut.2.bot.calls.toList <+: whole.2.bot.calls.toList
  errors : cut.2.context.stats.errors = m.context.stats.errors
  depth : cut.2.context.depth = m.context.depth

namespace Machine

theorem settle_calls (b : Bot) (e : ScriptError) : (b.settle e).calls = b.calls := by
  unfold Bot.settle
  split <;> rfl

theorem ended_calls (part : Run Unit) (m : Machine) :
    (ended (part m)).2.bot.calls = (part.after m).bot.calls := by
  unfold RunOn.after
  cases part m with
  | ok _ m' => rfl
  | error halt m' =>
    cases halt with
    | stopped => rfl
    | trouble t =>
      cases t with
      | error e => exact settle_calls m'.bot e
      | fault f => rfl

theorem ended_calmed (r : EStateM.Result Halt Machine Unit) :
    ended (Run.calmed r) = ((ended r).1, (ended r).2.calm) := by
  cases r with
  | ok _ m => rfl
  | error halt m =>
    cases halt with
    | stopped => rfl
    | trouble t => cases t <;> rfl

theorem begin_calm (m : Machine) : m.calm.begin = m.begin.map calm := by
  unfold begin
  rw [show m.calm.running = m.running from rfl]
  cases m.running <;> rfl

theorem runBody_calm (m : Machine) (b : Body) : (m.calm.runBody b).1 ≠ .ok .stopped := by
  intro h
  have hf := (Run.follows_program b).free m
  unfold runBody at h
  cases hr : Run.program b m.calm with
  | ok _ m' =>
    rw [hr] at h
    cases h
  | error halt m' =>
    rw [hr] at h
    cases halt with
    | stopped => exact hf m' hr
    | trouble t => cases t <;> cases h

theorem execute_calm (m : Machine) (p : Program) : (m.calm.execute p).1 ≠ .ok .stopped := by
  unfold execute
  rw [begin_calm]
  cases m.begin with
  | error f => exact nofun
  | ok m' =>
    cases p.body with
    | error f => exact nofun
    | ok body =>
      cases p.size with
      | error f => exact nofun
      | ok n => exact runBody_calm (m'.log .info _) body

theorem runBody_cut (m : Machine) (b : Body) :
    m.calm.runBody b = ((m.runBody b).1, (m.runBody b).2.calm) ∨
    CutShort m (m.runBody b) (m.calm.runBody b) := by
  unfold runBody
  rcases (Run.follows_program b).tracks m with hc | ⟨m', hs, hcalls⟩
  · left
    rw [← hc]
    exact ended_calmed _
  · right
    have herrors := Run.program_errors m b
    have hdepth := Run.program_depth m b
    rw [Run.after_of_error hs] at herrors hdepth
    rw [hs]
    refine ⟨rfl, ?_, herrors, hdepth⟩
    rw [ended_calls]
    exact hcalls

theorem execute_cut (m : Machine) (p : Program) :
    m.calm.execute p = ((m.execute p).1, (m.execute p).2.calm) ∨
    CutShort m (m.execute p) (m.calm.execute p) := by
  unfold execute
  rw [begin_calm]
  cases hb : m.begin with
  | error f => exact .inl rfl
  | ok m' =>
    have herrors : m'.context.stats.errors = m.context.stats.errors := by rw [begin_eq hb]; rfl
    have hdepth : m'.context.depth = m.context.depth := by rw [begin_eq hb]; rfl
    cases p.body with
    | error f => exact .inl rfl
    | ok body =>
      cases p.size with
      | error f => exact .inl rfl
      | ok n =>
        rcases runBody_cut (m'.log .info ("Executing program with " ++ toString n
          ++ " statements")) body with h | h
        · exact .inl h
        · exact .inr ⟨h.outcome, h.calls, h.errors.trans herrors, h.depth.trans hdepth⟩

theorem ended_heeded {r : EStateM.Result Halt Watch Unit} (h : Watched.Heeded r) :
    ∀ e ∈ Watched.seen r, e.late = false ∧
      (e.fails = true → ∃ message, (ended (Watched.erase r)).1 = .ok (.error message)) := by
  intro e he
  cases r with
  | ok _ w =>
    refine ⟨h.1 e he, fun hf => ?_⟩
    rw [h.2 e he] at hf
    cases hf
  | error halt w =>
    refine ⟨h.1 e he, fun hf => ?_⟩
    obtain ⟨error, hh⟩ := h.2 e he hf
    cases hh
    exact ⟨error.text, rfl⟩

theorem watch_heeds (m : Machine) (p : Program) :
    ∀ e ∈ (m.watch p).2, e.late = false ∧
      (e.fails = true → ∃ message, (m.watch p).1.1 = .ok (.error message)) := by
  have nothing : ∀ r : Except Fault Outcome × Machine, ∀ e ∈ ([] : List Event), e.late = false ∧
      (e.fails = true → ∃ message, r.1 = .ok (.error message)) := fun _ _ he => nomatch he
  have smooth : ∀ m : Machine, Watch.Smooth ⟨m, []⟩ :=
    fun _ => ⟨fun _ he => (nomatch he), fun _ he => (nomatch he)⟩
  unfold watch
  cases m.begin with
  | error f => exact nothing _
  | ok m' =>
    cases p.body with
    | error f => exact nothing _
    | ok body =>
      cases p.size with
      | error f => exact nothing _
      | ok n => exact ended_heeded (Watched.heeds_program body _ (smooth _))

/-- A request made before a run has begun is forgotten. -/
theorem execute_stop {m : Machine} (h : m.running = false) (p : Program) :
    m.stop.execute p = m.execute p := by
  have hs : m.stop.begin = m.begin := by
    unfold begin
    rw [show m.stop.running = m.running from rfl, h]
    rfl
  cases hm : m.begin with
  | error f => simp [begin, h] at hm
  | ok m' =>
    unfold execute
    rw [hs, hm]

end Machine

end AgentScript

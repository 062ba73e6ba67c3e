import AgentScript.Proofs.Machine.Keeps
import AgentScript.Proofs.Machine.Steps

/-! Bots that keep to themselves: whatever they are asked for, they leave the variables of the run
alone, and it is not theirs to stop the run. The bot of the in-memory world is one of them. -/
namespace AgentScript

variable {β : Type}

def OnContext (C : Context → Context → Prop) (m m' : Machine β) : Prop := C m.context m'.context

/-- Relations of contexts that hold of a context itself and carry on. -/
class Context.Lasting (C : Context → Context → Prop) : Prop where
  refl : ∀ c, C c c
  trans : ∀ {c₁ c₂ c₃}, C c₁ c₂ → C c₂ c₃ → C c₁ c₃

namespace Run

variable {α γ : Type}

instance {C : Context → Context → Prop} [Context.Lasting C] :
    AllowsParts (OnContext C : Machine β → Machine β → Prop) where
  refl m := Context.Lasting.refl m.context
  trans h h' := Context.Lasting.trans h h'
  output m _ := Context.Lasting.refl m.context
  wait m time := by
    obtain ⟨flag, probes, later, he, -⟩ := m.waitUntil_eq time
    rw [OnContext, he]
    exact Context.Lasting.refl m.context

/-- An attempt is cut short by stops only. -/
theorem attempt_error {part : RunOn β α} {m m' : Machine β} {halt : Halt}
    (h : attempt part m = .error halt m') : halt = .stopped ∧ part m = .error .stopped m' := by
  unfold attempt at h
  cases hm : part m with
  | ok a m₁ =>
    rw [hm] at h
    cases h
  | error halt' m₁ =>
    rw [hm] at h
    cases halt' with
    | trouble t => cases h
    | stopped =>
      cases h
      exact ⟨rfl, rfl⟩

/-- Trouble is given a place, and a stop is passed on. -/
theorem locate_error {loc : Location} {part : RunOn β α} {m m' : Machine β} {halt : Halt}
    (h : locate loc part m = .error halt m') :
    (∃ t, halt = .trouble (t.locate loc) ∧ part m = .error (.trouble t) m') ∨
    halt = .stopped ∧ part m = .error .stopped m' := by
  unfold locate at h
  cases hm : part m with
  | ok a m₁ =>
    rw [hm] at h
    cases h
  | error halt' m₁ =>
    rw [hm] at h
    cases halt' with
    | trouble t =>
      cases h
      exact .inl ⟨t, rfl, rfl⟩
    | stopped =>
      cases h
      exact .inr ⟨rfl, rfl⟩

theorem locate_stopped {loc : Location} {part : RunOn β α} {m m' : Machine β}
    (h : locate loc part m = .error .stopped m') : part m = .error .stopped m' := by
  rcases locate_error h with ⟨t, ht, -⟩ | ⟨-, hm⟩
  · cases ht
  · exact hm

/-- A part that no stop cuts short. -/
def Lasts (part : RunOn β α) : Prop := ∀ m m', part m ≠ .error .stopped m'

instance : PartLaw (fun _ => Lasts (β := β)) where
  pure _ _ _ h := by cases h
  fail _ _ _ h := by cases h
  bind hp hf m m' h := by
    rcases bind_error h with hm | ⟨a, m₁, -, hm⟩
    · exact hp m m' hm
    · exact hf a m₁ m' hm
  read _ hf m m' h := hf m m m' h
  attempt hp m m' h := hp m m' (attempt_error h).2
  locate _ hp m m' h := hp m m' (locate_stopped h)
  log _ _ _ _ h := by cases h
  wait _ _ _ h := by cases h

instance : BotLaw (fun _ => Lasts) where
  print _ _ _ h := by cases h
  record _ _ _ h := by cases h
  effect _ _ _ h := by cases h

end Run

/-- A bot that keeps to itself. -/
class LawfulPort (β : Type) [Port β] : Prop where
  context : ∀ {α : Type} (operation : Operation α) (m : Machine β),
    ((Port.call operation).after m).context = m.context
  lasts : ∀ {α : Type} (operation : Operation α),
    Run.Lasts (Port.call operation : RunOn β α)

namespace Context

def Same (c c' : Context) : Prop := c' = c

instance : Lasting Same := ⟨fun _ => rfl, fun h h' => Eq.trans h' h⟩

end Context

namespace Run

instance : AllowsBot (OnContext Context.Same) where
  record m call := by
    obtain ⟨flag, at?, he, -⟩ := m.record_eq call
    rw [OnContext, he]
    rfl
  effect _ _ _ := rfl

instance : LawfulPort Bot where
  context operation := law_operate (P := fun _ => Keeps (OnContext Context.Same)) operation
  lasts operation := law_operate (P := fun _ => Lasts) operation

variable [Port β] [LawfulPort β]

instance : CommandLaw (fun _ => Lasts (β := β)) where
  call := LawfulPort.lasts

/-- No command touches the context. -/
instance {C : Context → Context → Prop} [Context.Lasting C] :
    AllowsCommands (OnContext C : Machine β → Machine β → Prop) where
  call operation m := by
    rw [OnContext, LawfulPort.context]
    exact Context.Lasting.refl m.context

theorem command_lasts (c : Command) : Lasts (command c : RunOn β _) :=
  law_command (P := fun _ => Lasts) c

/-- A command ends a run only with an error of the script, one that it met on its way. -/
theorem carryOut_of_command {c : Command} {m m' : Machine β} {halt : Halt}
    (h : command c m = .error halt m') :
    ∃ error, halt = .trouble (.error error) ∧
      carryOut c m = .error (.trouble (.error error)) m' := by
  change (attempt (carryOut c) >>= _) m = _ at h
  cases hc : carryOut c m with
  | ok result m₁ =>
    rw [bind_of_ok (attempt_of_ok hc)] at h
    cases h
  | error halt' m₁ =>
    cases halt' with
    | stopped => exact (law_carryOut (P := fun _ => Lasts) c m m₁ hc).elim
    | trouble t =>
      rw [bind_of_ok (attempt_of_trouble hc)] at h
      cases t with
      | fault f => cases h
      | error error =>
        cases h
        exact ⟨error, rfl, rfl⟩

end Run

namespace Machine

open RunOn (after)

variable [Port β]

/-- The end of a run has a part in nothing of a context but its figures. -/
theorem ended_context (part : RunOn β Unit) (m : Machine β) :
    ∃ stats, (ended (part m)).2.context = { (part.after m).context with stats := stats } := by
  unfold after
  cases part m with
  | ok _ m' => exact ⟨_, rfl⟩
  | error halt m' =>
    cases halt with
    | stopped => exact ⟨_, rfl⟩
    | trouble t => cases t <;> exact ⟨_, rfl⟩

/-- What a program keeps of a context, its figures apart, every run of it keeps. -/
theorem execute_keeps {C : Context → Context → Prop} [Context.Lasting C]
    (hstats : ∀ (c : Context) stats, C c { c with stats := stats }) {p : Program}
    (hp : ∀ body, p.body = .ok body → Run.Keeps (OnContext C) (Run.program body : RunOn β Unit))
    (m : Machine β) : C m.context (m.execute p).2.context := by
  unfold execute
  split
  · exact Context.Lasting.refl m.context
  · next m' hb =>
    have hm : C m.context m'.context := by
      rw [begin_eq hb]
      exact hstats m.context _
    split
    · next body n hbody _ =>
      generalize hm₁ : m'.log .info _ = m₁
      have hlogged : m₁.context = m'.context := by
        rw [← hm₁]
        rfl
      obtain ⟨stats, he⟩ := ended_context (Run.program body) m₁
      have hrun : C m'.context ((Run.program body).after m₁).context := hlogged ▸ hp body hbody m₁
      rw [runBody, he]
      exact Context.Lasting.trans hm (Context.Lasting.trans hrun (hstats _ stats))
    · exact hm
    · exact hm

end Machine

end AgentScript

import AgentScript.Proofs.Machine.Lawful

/-! A run that may be stopped beside the same run on a calm machine, where nothing can stop it. Up
to a stop the two do the same. -/
namespace AgentScript

/-- The machine without requests to stop and without looks at it, made or planned. -/
def Machine.calm (m : Machine) : Machine :=
  { m with stopRequested := false, alarms := [], stopAt := none, probes := [] }

theorem Machine.calm_waitUntil (m : Machine) (time : Float) :
    (m.waitUntil time).calm = m.calm.waitUntil time := by
  obtain ⟨flag, probes, later, he, -⟩ := m.waitUntil_eq time
  rw [he]
  change _ = (if m.clock < time then { m.calm with clock := time } else m.calm)
  by_cases hc : m.clock < time
  · rw [if_pos hc, if_pos hc]
    rfl
  · rw [if_neg hc, if_neg hc]
    rfl

namespace Run

variable {α β : Type}

def calmed (r : EStateM.Result Halt Machine α) : EStateM.Result Halt Machine α :=
  match r with
  | .ok a m => .ok a m.calm
  | .error halt m => .error halt m.calm

theorem calmed_bind {part : Run α} {f : α → Run β} {m : Machine}
    (hp : calmed (part m) = part m.calm)
    (hf : ∀ a m', part m = .ok a m' → calmed (f a m') = f a m'.calm) :
    calmed ((part >>= f) m) = (part >>= f) m.calm := by
  cases h : part m with
  | ok a m' =>
    have hc : part m.calm = .ok a m'.calm := by rw [← hp, h, calmed]
    rw [bind_of_ok h, bind_of_ok hc]
    exact hf a m' h
  | error halt m' =>
    have hc : part m.calm = .error halt m'.calm := by rw [← hp, h, calmed]
    rw [bind_of_error h, bind_of_error hc]
    rfl

theorem calmed_read {f : Machine → Run α} (hr : ReadsWorld f) {m : Machine}
    (h : calmed (f m m) = f m m.calm) : calmed ((get >>= f) m) = (get >>= f) m.calm := by
  have he : f m.calm = f m := hr m m.calm rfl rfl rfl rfl
  change calmed (f m m) = f m.calm m.calm
  rw [he]
  exact h

theorem calmed_attempt {part : Run α} {m : Machine} (h : calmed (part m) = part m.calm) :
    calmed (attempt part m) = attempt part m.calm := by
  unfold attempt
  rw [← h]
  cases part m with
  | ok a m' => rfl
  | error halt m' => cases halt <;> rfl

theorem calmed_locate (loc : Location) {part : Run α} {m : Machine}
    (h : calmed (part m) = part m.calm) :
    calmed (locate loc part m) = locate loc part m.calm := by
  unfold locate
  rw [← h]
  cases part m with
  | ok a m' => rfl
  | error halt m' => cases halt <;> rfl

theorem calmed_inScope {part : Run α} {m : Machine}
    (h : calmed (part { m with context := m.context.enter }) =
      part { m.calm with context := m.context.enter }) :
    calmed (inScope part m) = inScope part m.calm := by
  unfold inScope
  rw [show m.calm.context = m.context from rfl, ← h]
  cases part { m with context := m.context.enter } <;> rfl

/-- A part that does the same on a calm machine. -/
def Steady (part : Run α) : Prop := ∀ m, calmed (part m) = part m.calm

theorem steady_changeContext (f : Context → Except Trouble Context) :
    Steady (changeContext f) := by
  intro m
  rw [changeContext_apply, changeContext_apply, show m.calm.context = m.context from rfl]
  cases f m.context <;> rfl

instance : PartLaw (fun _ => Steady) where
  pure _ _ := rfl
  fail _ _ := rfl
  bind hp hf m := calmed_bind (hp m) fun a m' _ => hf a m'
  read hr hf m := calmed_read hr (hf m m)
  attempt hp m := calmed_attempt (hp m)
  locate loc hp m := calmed_locate loc (hp m)
  log _ _ _ := rfl
  wait time m := congrArg (EStateM.Result.ok ()) (m.calm_waitUntil (time m.clock))

instance : BotLaw (fun _ => Steady) where
  print text m := by
    change EStateM.Result.ok () (m.print text).calm = .ok () (m.calm.print text)
    unfold Machine.print
    by_cases he : m.bot.echo
    · rw [if_pos he, if_pos (show m.calm.bot.echo from he)]
      rfl
    · rw [if_neg he, if_neg (show ¬ m.calm.bot.echo from he)]
  record call m := by
    obtain ⟨flag, at?, he, -⟩ := m.record_eq call
    change EStateM.Result.ok () (m.record call).calm = .ok () (m.calm.record call)
    rw [he]
    rfl
  effect _ _ := rfl

theorem command_steady (c : Command) : Steady (command c) := law_command (P := fun _ => Steady) c

end Run

end AgentScript

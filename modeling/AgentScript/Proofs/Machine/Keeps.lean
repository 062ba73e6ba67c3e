import AgentScript.Proofs.Except
import AgentScript.Proofs.Machine.Statement

/-! Relations that every part of a run keeps between the machine that it begins with and the machine
that it leaves, however it ends. -/
namespace AgentScript

variable {α β γ : Type} {R : Machine β → Machine β → Prop}

/-- The machine that a part leaves, however it ends. -/
def RunOn.after (part : RunOn β α) (m : Machine β) : Machine β :=
  match part m with
  | .ok _ m' => m'
  | .error _ m' => m'

namespace Run

open RunOn (after)

def Keeps (R : Machine β → Machine β → Prop) (part : RunOn β α) : Prop := ∀ m, R m (part.after m)

class Lasting (R : Machine β → Machine β → Prop) : Prop where
  refl : ∀ m, R m m
  trans : ∀ {m₁ m₂ m₃}, R m₁ m₂ → R m₂ m₃ → R m₁ m₃

/-- A relation that lasts over what parts of a run do without the bot. -/
class AllowsParts (R : Machine β → Machine β → Prop) : Prop extends Lasting R where
  output : ∀ m lines, R m { m with output := lines }
  wait : ∀ m time, R m (m.waitUntil time)

/-- A relation that lasts over whatever the bot of the in-memory world does. -/
class AllowsBot (R : Machine → Machine → Prop) : Prop extends AllowsParts R where
  record : ∀ m call, R m (m.record call)
  effect : ∀ m b, m.bot.Effect b → R m { m with bot := b }

/-- A relation that lasts over whatever a command does. -/
class AllowsCommands [Port β] (R : Machine β → Machine β → Prop) : Prop extends AllowsParts R where
  call : ∀ {α : Type} (operation : Operation α), Keeps R (Port.call operation)

/-- A relation that lasts over whatever a statement does, commands apart. -/
class AllowsQuiet (R : Machine β → Machine β → Prop) : Prop extends AllowsParts R where
  last : ∀ m result, R m { m with last := some result, context := m.context.countCommand }
  count : ∀ m, R m { m with context := m.context.countStatement }
  define : ∀ m name v loc c, m.context.define name v .local false loc = .ok c →
    R m { m with context := c }
  assign : ∀ m name v c, m.context.set name v = .ok c → R m { m with context := c }
  scope : ∀ m m', R { m with context := m.context.enter } m' →
    R m { m' with context := m'.context.exit }

/-- A relation that lasts over whatever a statement does. -/
class AllowsStatements [Port β] (R : Machine β → Machine β → Prop) : Prop
    extends AllowsCommands R, AllowsQuiet R

theorem after_of_ok {part : RunOn β α} {m m' : Machine β} {a : α} (h : part m = .ok a m') :
    part.after m = m' := by
  rw [after, h]

theorem after_of_error {part : RunOn β α} {m m' : Machine β} {halt : Halt}
    (h : part m = .error halt m') : part.after m = m' := by
  rw [after, h]

theorem Keeps.ok {part : RunOn β α} (h : Keeps R part) {m m' : Machine β} {a : α}
    (hm : part m = .ok a m') : R m m' := by
  have hr := h m
  rwa [after_of_ok hm] at hr

theorem bind_of_ok {part : RunOn β α} {m m' : Machine β} {a : α} (h : part m = .ok a m')
    (f : α → RunOn β γ) : (part >>= f) m = f a m' := by
  change EStateM.bind part f m = _
  rw [EStateM.bind, h]

theorem bind_of_error {part : RunOn β α} {m m' : Machine β} {halt : Halt}
    (h : part m = .error halt m') (f : α → RunOn β γ) : (part >>= f) m = .error halt m' := by
  change EStateM.bind part f m = _
  rw [EStateM.bind, h]

theorem exists_of_bind_ok {part : RunOn β α} {m m' : Machine β} {f : α → RunOn β γ} {c : γ}
    (h : (part >>= f) m = .ok c m') : ∃ a m₁, part m = .ok a m₁ ∧ f a m₁ = .ok c m' := by
  cases hp : part m with
  | ok a m₁ => exact ⟨a, m₁, rfl, (bind_of_ok hp f).symm.trans h⟩
  | error halt m₁ => cases (bind_of_error hp f).symm.trans h

theorem bind_error {part : RunOn β α} {m m' : Machine β} {f : α → RunOn β γ} {halt : Halt}
    (h : (part >>= f) m = .error halt m') :
    part m = .error halt m' ∨ ∃ a m₁, part m = .ok a m₁ ∧ f a m₁ = .error halt m' := by
  cases hp : part m with
  | ok a m₁ => exact .inr ⟨a, m₁, rfl, (bind_of_ok hp f).symm.trans h⟩
  | error halt' m₁ =>
    cases (bind_of_error hp f).symm.trans h
    exact .inl rfl

theorem attempt_of_ok {part : RunOn β α} {m m' : Machine β} {a : α} (h : part m = .ok a m') :
    attempt part m = .ok (.ok a) m' := by
  rw [attempt, h]

theorem attempt_of_trouble {part : RunOn β α} {m m' : Machine β} {t : Trouble}
    (h : part m = .error (.trouble t) m') : attempt part m = .ok (.error t) m' := by
  rw [attempt, h]

theorem attempt_of_stopped {part : RunOn β α} {m m' : Machine β}
    (h : part m = .error .stopped m') : attempt part m = .error .stopped m' := by
  rw [attempt, h]

theorem locate_of_ok {part : RunOn β α} {m m' : Machine β} {a : α} (h : part m = .ok a m')
    (loc : Location) : locate loc part m = .ok a m' := by
  rw [locate, h]

theorem locate_of_trouble {part : RunOn β α} {m m' : Machine β} {t : Trouble}
    (h : part m = .error (.trouble t) m') (loc : Location) :
    locate loc part m = .error (.trouble (t.locate loc)) m' := by
  rw [locate, h]

theorem locate_of_stopped {part : RunOn β α} {m m' : Machine β}
    (h : part m = .error .stopped m') (loc : Location) :
    locate loc part m = .error .stopped m' := by
  rw [locate, h]

theorem after_bind_of_ok {part : RunOn β α} {m m' : Machine β} {a : α} (h : part m = .ok a m')
    (f : α → RunOn β γ) : (part >>= f).after m = (f a).after m' := by
  rw [after, after, bind_of_ok h]

/-- A part leaves what its beginning leaves, if the rest changes nothing. -/
theorem after_bind_of_rest {part : RunOn β α} {f : α → RunOn β γ}
    (hf : ∀ a m', (f a).after m' = m') (m : Machine β) :
    (part >>= f).after m = part.after m := by
  cases h : part m with
  | ok a m' => rw [after_bind_of_ok h, hf, after_of_ok h]
  | error halt m' => rw [after_of_error h, after_of_error (bind_of_error h f)]

/-- What a relation has to allow of two parts, from where they begin. -/
theorem rel_bind [Lasting R] {part : RunOn β α} {f : α → RunOn β γ} {m : Machine β}
    (hp : R m (part.after m)) (hf : ∀ a m', part m = .ok a m' → R m' ((f a).after m')) :
    R m ((part >>= f).after m) := by
  cases h : part m with
  | ok a m' =>
    rw [after_of_ok h] at hp
    rw [after_bind_of_ok h]
    exact Lasting.trans hp (hf a m' h)
  | error halt m' =>
    rw [after_of_error h] at hp
    rwa [after_of_error (bind_of_error h f)]

/-- To look at the machine leaves it as it is. -/
theorem after_get_bind (f : Machine β → RunOn β α) (m : Machine β) :
    (get >>= f).after m = (f m).after m := rfl

theorem rel_get_bind {f : Machine β → RunOn β α} {m : Machine β} (h : R m ((f m).after m)) :
    R m ((get >>= f).after m) := h

theorem keeps_rest [Lasting R] {part : RunOn β α} {f : α → RunOn β γ} (hf : ∀ a, Keeps R (f a))
    (m : Machine β) : R (part.after m) ((part >>= f).after m) := by
  cases h : part m with
  | ok a m' =>
    rw [after_of_ok h, after_bind_of_ok h]
    exact hf a m'
  | error halt m' =>
    rw [after_of_error h, after_of_error (bind_of_error h f)]
    exact Lasting.refl m'

theorem keeps_bind [Lasting R] {part : RunOn β α} {f : α → RunOn β γ} (hp : Keeps R part)
    (hf : ∀ a, Keeps R (f a)) : Keeps R (part >>= f) :=
  fun m => rel_bind (hp m) fun a m' _ => hf a m'

theorem after_attempt (part : RunOn β α) (m : Machine β) :
    (attempt part).after m = part.after m := by
  unfold after attempt
  cases part m with
  | ok a m' => rfl
  | error halt m' => cases halt <;> rfl

theorem after_act (verb success : String) (part : RunOn β Unit) (m : Machine β) :
    (act verb part success).after m = part.after m := by
  refine (after_bind_of_rest (fun r m' => ?_) m).trans (after_attempt part m)
  cases r <;> rfl

theorem after_locate (loc : Location) (part : RunOn β α) (m : Machine β) :
    (locate loc part).after m = part.after m := by
  unfold after locate
  cases part m with
  | ok a m' => rfl
  | error halt m' => cases halt <;> rfl

theorem after_inScope (part : RunOn β α) (m : Machine β) :
    (inScope part).after m =
      { part.after { m with context := m.context.enter } with
        context := (part.after { m with context := m.context.enter }).context.exit } := by
  unfold after inScope
  cases part { m with context := m.context.enter } <;> rfl

theorem changeContext_apply (f : Context → Except Trouble Context) (m : Machine β) :
    changeContext f m =
      match f m.context with
      | .ok c => .ok () { m with context := c }
      | .error t => .error (.trouble t) m := by
  change (lift (f m.context) >>= fun c => (set { m with context := c } : RunOn β Unit)) m = _
  cases f m.context <;> rfl

theorem changeContext_ok {f : Context → Except Trouble Context} {m : Machine β} {c : Context}
    (h : f m.context = .ok c) : changeContext f m = .ok () { m with context := c } := by
  rw [changeContext_apply, h]

theorem changeContext_error {f : Context → Except Trouble Context} {m : Machine β} {t : Trouble}
    (h : f m.context = .error t) : changeContext f m = .error (.trouble t) m := by
  rw [changeContext_apply, h]

theorem keeps_changeContext [Lasting R] {f : Context → Except Trouble Context}
    (h : ∀ m c, f m.context = .ok c → R m { m with context := c }) :
    Keeps R (changeContext f) := by
  intro m
  rw [after, changeContext_apply]
  cases hf : f m.context with
  | ok c => exact h m c hf
  | error t => exact Lasting.refl m

theorem evaluate_ok {e : Expr} {m : Machine β} {v : Value} (h : e.eval m.context = .ok v) :
    evaluate e m = .ok v m := by
  change lift (e.eval m.context) m = _
  rw [h]
  rfl

theorem evaluate_error {e : Expr} {m : Machine β} {t : Trouble}
    (h : e.eval m.context = .error t) : evaluate e m = .error (.trouble t) m := by
  change lift (e.eval m.context) m = _
  rw [h]
  rfl

theorem checkStop_apply (m : Machine β) :
    checkStop m = if m.stopRequested then .error .stopped m else .ok () m := by
  change (if m.stopRequested then throw .stopped else pure () : RunOn β Unit) m = _
  by_cases h : m.stopRequested
  · rw [if_pos h, if_pos h]
    rfl
  · rw [if_neg h, if_neg h]
    rfl

theorem keeps_checkStop [Lasting R] : Keeps R checkStop := by
  intro m
  rw [after, checkStop_apply]
  by_cases h : m.stopRequested
  · rw [if_pos h]
    exact Lasting.refl m
  · rw [if_neg h]
    exact Lasting.refl m

/-- A command that failed ends the run. -/
theorem conclude_failed {result : CommandResult} (h : result.success = false) (loc : Location)
    (m : Machine β) :
    ∃ m', conclude loc result m =
      .error (.trouble (Cause.commandFailed result.message).trouble) m' ∧ m'.bot = m.bot := by
  unfold conclude
  rw [modify_bind, h]
  exact ⟨_, rfl, rfl⟩

theorem conclude_done {result : CommandResult} (h : result.success = true) (loc : Location)
    (m : Machine β) : ∃ m', conclude loc result m = .ok () m' ∧ m'.bot = m.bot := by
  unfold conclude
  rw [modify_bind, h]
  exact ⟨_, rfl, rfl⟩

instance [AllowsParts R] : PartLaw (fun _ => Keeps R) where
  pure _ m := Lasting.refl m
  fail _ m := Lasting.refl m
  bind := keeps_bind
  read _ hf m := hf m m
  attempt h m := by
    rw [after_attempt]
    exact h m
  locate loc h m := by
    rw [after_locate]
    exact h m
  log _ _ m := AllowsParts.output m _
  wait time m := AllowsParts.wait m (time m.clock)

instance {R : Machine → Machine → Prop} [AllowsBot R] : BotLaw (fun _ => Keeps R) where
  print text m := by
    change R m (m.print text)
    unfold Machine.print
    split
    · exact AllowsParts.output m _
    · exact Lasting.refl m
  record call m := AllowsBot.record m call
  effect he m := AllowsBot.effect m _ (he m.bot)

instance {R : Machine → Machine → Prop} [AllowsBot R] : AllowsCommands R where
  call := law_operate (P := fun _ => Keeps R)

section Quiet

variable [AllowsQuiet R]

theorem keeps_inScope {part : RunOn β Unit} (h : Keeps R part) : Keeps R (inScope part) := by
  intro m
  rw [after_inScope]
  exact AllowsQuiet.scope m _ (h _)

theorem keeps_count : Keeps R (changeContext fun c => .ok c.countStatement) :=
  keeps_changeContext fun m c h => by
    cases h
    exact AllowsQuiet.count m

theorem keeps_index (i : Nat) : Keeps R (changeContext fun c =>
    (c.define indexName (.number (Float.ofNat i)) .local false ⟨0, 0⟩).mapError .error) :=
  keeps_changeContext fun m c h => AllowsQuiet.define m indexName _ _ c (mapError_eq_ok h)

theorem keeps_names : NameLaw (fun _ => True) (fun _ => Keeps R) where
  declare name v loc _ := keeps_changeContext fun m c h => by
    obtain ⟨key, -, h⟩ := bind_eq_ok h
    exact AllowsQuiet.define m key v loc c (mapError_eq_ok h)
  assign name v _ := keeps_changeContext fun m c h => by
    obtain ⟨key, -, h⟩ := bind_eq_ok h
    split at h
    · exact AllowsQuiet.assign m key v c (mapError_eq_ok h)
    · cases h

instance : QuietLaw (fun _ => Keeps R) where
  checkStop := keeps_checkStop
  inScope := keeps_inScope
  iteration i h := keeps_inScope (keeps_bind (keeps_index i) fun _ => h)
  last result m := AllowsQuiet.last m result
  count := keeps_count

end Quiet

variable [Port β]

theorem command_of_carryOut {c : Command} {m m' : Machine β} {error : ScriptError}
    (h : carryOut c m = .error (.trouble (.error error)) m') :
    command c m = .error (.trouble (.error error)) m' := by
  change (attempt (carryOut c) >>= _) m = _
  rw [bind_of_ok (attempt_of_trouble h)]
  rfl

/-- A command leaves what it left when it was carried out, whatever becomes of its result. -/
theorem after_command (c : Command) (m : Machine β) :
    (command c).after m = (carryOut c).after m := by
  unfold command
  rw [after_get_bind]
  refine (after_bind_of_rest (fun r m' => ?_) m).trans (after_attempt (carryOut c) m)
  cases r with
  | ok result => rfl
  | error t => cases t <;> rfl

instance [AllowsCommands R] : CommandLaw (fun _ => Keeps R) where
  call := AllowsCommands.call

instance [AllowsStatements R] : StatementLaw (fun _ => Keeps R) where
  checkStop := keeps_checkStop
  inScope := keeps_inScope
  last result m := AllowsQuiet.last m result
  count := keeps_count
  index := keeps_index
  declare name v loc := keeps_names.declare name v loc trivial
  assign name v := keeps_names.assign name v trivial

end Run

end AgentScript

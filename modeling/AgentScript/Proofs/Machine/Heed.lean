import AgentScript.Proofs.Machine.Calm
import AgentScript.Proofs.Machine.Watch

/-! What is seen of every run: nothing begins after a request to stop, and a command that fails ends
the run with an error. -/
namespace AgentScript

namespace Event

/-- Something begins after a request to stop. -/
def late : Event → Bool
  | statement late => late
  | iteration late => late
  | command _ => false

def fails : Event → Bool
  | command fails => fails
  | _ => false

end Event

namespace Watch

def Prompt (w : Watch) : Prop := ∀ e ∈ w.events, e.late = false

/-- So far nothing has begun late and no command has failed. -/
def Smooth (w : Watch) : Prop := w.Prompt ∧ ∀ e ∈ w.events, e.fails = false

theorem prompt_push {w : Watch} {e : Event} (h : w.Prompt) (he : e.late = false) (m : Machine) :
    Prompt ⟨m, w.events ++ [e]⟩ := by
  intro e' he'
  rcases List.mem_append.mp he' with hw | hs
  · exact h e' hw
  · rw [List.mem_singleton.mp hs]
    exact he

theorem smooth_push {w : Watch} {e : Event} (h : w.Smooth) (hl : e.late = false)
    (hf : e.fails = false) (m : Machine) : Smooth ⟨m, w.events ++ [e]⟩ := by
  refine ⟨prompt_push h.1 hl m, fun e' he' => ?_⟩
  rcases List.mem_append.mp he' with hw | hs
  · exact h.2 e' hw
  · rw [List.mem_singleton.mp hs]
    exact hf

end Watch

namespace Watched

variable {α β : Type}

/-- What is seen of a part that ends in some way: nothing has begun late, and a command that has
failed has ended the part with an error of the script. -/
def Heeded (r : EStateM.Result Halt Watch α) : Prop :=
  match r with
  | .ok _ w => w.Smooth
  | .error halt w =>
    w.Prompt ∧ ∀ e ∈ w.events, e.fails = true → ∃ error, halt = .trouble (.error error)

def Heeds (part : Watched α) : Prop := ∀ w : Watch, w.Smooth → Heeded (part w)

theorem heeded_error {w : Watch} (h : w.Smooth) (halt : Halt) :
    Heeded (.error halt w : EStateM.Result Halt Watch α) := by
  refine ⟨h.1, fun e he hf => ?_⟩
  rw [h.2 e he] at hf
  cases hf

theorem heeds_pure (a : α) : Heeds (pure a) := fun _ h => h

theorem heeds_quiet (part : Run α) : Heeds (quiet part) := by
  intro w hw
  unfold quiet
  cases part w.machine with
  | ok a m => exact hw
  | error halt m => exact heeded_error (w := { w with machine := m }) hw halt

theorem heeds_bind {part : Watched α} {f : α → Watched β} (hp : Heeds part)
    (hf : ∀ a, Heeds (f a)) : Heeds (part >>= f) := by
  intro w hw
  have h := hp w hw
  change Heeded (EStateM.bind part f w)
  unfold EStateM.bind
  cases hr : part w with
  | ok a w' =>
    rw [hr] at h
    exact hf a w' h
  | error halt w' =>
    rw [hr] at h
    exact h

/-- Whatever begins where a stop would take effect begins in time. -/
theorem heeds_begin {event : Bool → Event} (hl : (event false).late = false)
    (hf : (event false).fails = false) {part : Watched α} (h : Heeds part) :
    Heeds (do
      quiet Run.checkStop
      mark event
      part) := by
  intro w hw
  change Heeded (EStateM.bind (quiet Run.checkStop) _ w)
  unfold EStateM.bind quiet
  rw [Run.checkStop_apply]
  by_cases hs : w.machine.stopRequested
  · rw [if_pos hs]
    exact heeded_error hw .stopped
  · rw [if_neg hs]
    have hfalse : w.machine.stopRequested = false := Bool.eq_false_iff.mpr hs
    refine h { w with events := w.events ++ [event w.machine.stopRequested] } ?_
    rw [hfalse]
    exact Watch.smooth_push hw hl hf w.machine

theorem heeds_locate (loc : Location) {part : Watched α} (h : Heeds part) :
    Heeds (locate loc part) := by
  intro w hw
  have hr := h w hw
  unfold locate
  cases hp : part w with
  | ok a w' =>
    rw [hp] at hr
    exact hr
  | error halt w' =>
    rw [hp] at hr
    cases halt with
    | stopped => exact hr
    | trouble t =>
      refine ⟨hr.1, fun e he hf => ?_⟩
      obtain ⟨error, ht⟩ := hr.2 e he hf
      cases ht
      exact ⟨error.locate loc, rfl⟩

theorem heeds_inScope {part : Watched α} (h : Heeds part) : Heeds (inScope part) := by
  intro w hw
  have hr := h { w with machine := { w.machine with context := w.machine.context.enter } } hw
  unfold inScope
  cases hp : part { w with machine := { w.machine with context := w.machine.context.enter } } with
  | ok a w' =>
    rw [hp] at hr
    exact hr
  | error halt w' =>
    rw [hp] at hr
    exact hr

end Watched

namespace Watched

theorem heeds_commandStatement (loc : Location) (c : Command) :
    Heeds (commandStatement loc c) := by
  intro w hw
  change Heeded (EStateM.bind (command c) _ w)
  unfold EStateM.bind command
  cases h : Run.command c w.machine with
  | error halt m =>
    exact ⟨Watch.prompt_push hw.1 rfl m, fun _ _ _ => (Run.carryOut_of_command h).imp fun _ h => h.1⟩
  | ok result m =>
    cases hs : result.success with
    | true => exact heeds_quiet _ _ (Watch.smooth_push hw rfl (by simp [Event.fails, hs]) m)
    | false =>
      obtain ⟨m', hc, -⟩ := Run.conclude_failed hs loc m
      dsimp only [quiet]
      rw [hc]
      exact ⟨Watch.prompt_push hw.1 rfl m', fun _ _ _ => ⟨_, rfl⟩⟩

theorem heeds_counted (loc : Location) (kind : String) {part : Watched Unit} (h : Heeds part) :
    Heeds (counted loc kind part) := by
  refine heeds_bind (heeds_quiet _) fun _ => ?_
  exact heeds_bind (heeds_locate loc h) fun _ => heeds_quiet _

theorem heeds_iteration {body : Watched Unit} (h : Heeds body) (index : Nat) :
    Heeds (iteration body index) :=
  heeds_inScope (heeds_bind (heeds_quiet _) fun _ => h)

theorem heeds_times {part : Nat → Watched Unit} (h : ∀ i, Heeds (part i)) (index count : Nat) :
    Heeds (times part index count) := by
  induction count generalizing index with
  | zero => exact heeds_pure ()
  | succ count ih => exact heeds_begin rfl rfl (heeds_bind (h index) fun _ => ih (index + 1))

theorem heeds_strayBody (tree : Json) : Heeds (strayBody tree) := by
  unfold strayBody
  split
  · exact heeds_pure ()
  · exact heeds_begin rfl rfl (heeds_quiet _)
  · exact heeds_quiet _

mutual

theorem heeds_statement : (s : Stmt) → Heeds (statement s)
  | .branch loc condition yes no => by
    refine heeds_counted loc _ (heeds_bind (heeds_quiet _) fun v => heeds_inScope ?_)
    cases v.truthy with
    | true => exact heeds_chosen yes
    | false => exact heeds_otherwise no
  | .loop loc count body => by
    refine heeds_counted loc _ (heeds_bind (heeds_quiet _) fun v => ?_)
    refine heeds_bind (heeds_quiet _) fun n => ?_
    exact heeds_times (heeds_iteration (heeds_block body)) 0 n
  | .command loc c => heeds_counted loc _ (heeds_commandStatement loc c)
  | .declare .. => heeds_quiet _
  | .assign .. => heeds_quiet _
  | .evaluate .. => heeds_quiet _
  | .misfit _ => heeds_quiet _

theorem heeds_block : (b : Body) → Heeds (block b)
  | .statements list => heeds_statements list
  | .misfit tree => heeds_strayBody tree

theorem heeds_chosen : (b : Body) → Heeds (chosen b)
  | .statements list => heeds_statements list
  | .misfit tree => by
    unfold chosen
    cases tree with
    | null => exact heeds_pure ()
    | _ => exact heeds_strayBody _

theorem heeds_otherwise : (b : Option Body) → Heeds (otherwise b)
  | some body => heeds_chosen body
  | none => heeds_pure ()

theorem heeds_statements : (list : List Stmt) → Heeds (statements list)
  | [] => heeds_pure ()
  | s :: rest =>
    heeds_begin rfl rfl (heeds_bind (heeds_statement s) fun _ => heeds_statements rest)

end

theorem heeds_program (b : Body) : Heeds (program b) :=
  heeds_bind (heeds_quiet _) fun _ => heeds_block b

end Watched

end AgentScript

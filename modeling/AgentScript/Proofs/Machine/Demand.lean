import AgentScript.Proofs.Machine.Blame
import AgentScript.Proofs.Machine.Cause
import AgentScript.Proofs.Machine.Lawful

/-! What commands demand of their arguments. They are checked one after the other before anything is
asked of the bot, so the first one that is not as demanded decides the error, and when all are as
demanded no error of the script is left. -/
namespace AgentScript

variable {β : Type}

/-- An argument, and the cause for which a value of it is refused. -/
structure Demand where
  argument : Expr
  refusal : Value → Option Cause

namespace Demand

def any (e : Expr) : Demand := ⟨e, fun _ => none⟩

def coordinate (command : String) (e : Expr) : Demand where
  argument := e
  refusal
    | .number _ => none
    | v => some (.coordinate command v.kind)

def count (e : Expr) : Demand where
  argument := e
  refusal
    | .number x => if x.isFinite && 1 ≤ x then none else some (.dropCount (.number x))
    | v => some (.dropCount v)

def duration (e : Expr) : Demand where
  argument := e
  refusal
    | .number x => if x.isFinite && 0 ≤ x then none else some (.waitSeconds (.number x))
    | v => some (.waitSeconds v)

def Met (c : Context) (d : Demand) : Prop :=
  ∃ v, d.argument.eval c = .ok v ∧ d.refusal v = none

/-- A demand fails with the argument itself, or for the value of the argument. -/
inductive Fails (c : Context) (d : Demand) : Blame → Prop
  | argument {b : Blame} (h : d.argument.Fails c b) : Fails c d b
  | refused {v : Value} {cause : Cause} (hv : d.argument.eval c = .ok v)
    (hr : d.refusal v = some cause) : Fails c d (.on cause d.argument.loc)

def verdict (c : Context) (d : Demand) : Except Trouble Value :=
  match d.argument.eval c with
  | .error t => .error t
  | .ok v =>
    match d.refusal v with
    | none => .ok v
    | some cause => .error (.error (.locatedAt cause d.argument.loc))

theorem met_of_verdict {c : Context} {d : Demand} {v : Value} (h : d.verdict c = .ok v) :
    d.Met c := by
  unfold verdict at h
  split at h
  · cases h
  · next w hw =>
    split at h
    · next hr => exact ⟨w, hw, hr⟩
    · cases h

theorem Met.verdict {c : Context} {d : Demand} (h : d.Met c) : ∃ v, d.verdict c = .ok v := by
  obtain ⟨v, hv, hr⟩ := h
  refine ⟨v, ?_⟩
  unfold Demand.verdict
  simp only [hv, hr]

theorem Fails.verdict {c : Context} {d : Demand} {b : Blame} (h : d.Fails c b) :
    ∃ error, d.verdict c = .error (.error error) ∧ b.ToldBy error := by
  unfold Demand.verdict
  cases h with
  | argument h =>
    obtain ⟨error, he, ht⟩ := h.eval
    exact ⟨error, by rw [he], ht⟩
  | refused hv hr => exact ⟨_, by simp only [hv, hr], .locatedAt _ _⟩

theorem fails_of_verdict {P : Location → Prop} {c : Context} {d : Demand}
    (hd : d.argument.Over P) {t : Trouble} (h : d.verdict c = .error t) :
    ∃ error b, t = .error error ∧ d.Fails c b ∧ b.ToldBy error := by
  unfold verdict at h
  split at h
  · next t' he =>
    cases h
    obtain ⟨error, b, ht, hb, hold⟩ := Expr.fails_of_eval hd he
    exact ⟨error, b, ht, .argument hb, hold⟩
  · next v hv =>
    split at h
    · cases h
    · next cause hr =>
      cases h
      exact ⟨_, _, rfl, .refused hv hr, .locatedAt _ _⟩

/-- The causes for which arguments are refused are those of runs. -/
def Runtime (d : Demand) : Prop :=
  ∀ v cause, d.refusal v = some cause → cause.kind.heading? = some "Execution error"

theorem runtime_of_own {d : Demand} {cause : Value → Cause} (hown : ∀ v, (cause v).own)
    (h : ∀ v, d.refusal v = none ∨ d.refusal v = some (cause v)) : d.Runtime := by
  intro v c hc
  rcases h v with hv | hv
  · cases hv.symm.trans hc
  · cases hv.symm.trans hc
    exact Cause.heading_of_own (hown v)

theorem runtime_any (e : Expr) : (any e).Runtime := fun _ _ h => nomatch h

theorem runtime_coordinate (command : String) (e : Expr) : (coordinate command e).Runtime := by
  refine runtime_of_own (fun v => show (Cause.coordinate command v.kind).own from rfl) fun v => ?_
  cases v with
  | number x => exact .inl rfl
  | _ => exact .inr rfl

theorem runtime_count (e : Expr) : (count e).Runtime := by
  refine runtime_of_own (fun v => show (Cause.dropCount v).own from rfl) fun v => ?_
  cases v with
  | number x => exact ite_eq_or_eq _ _ _
  | _ => exact .inr rfl

theorem runtime_duration (e : Expr) : (duration e).Runtime := by
  refine runtime_of_own (fun v => show (Cause.waitSeconds v).own from rfl) fun v => ?_
  cases v with
  | number x => exact ite_eq_or_eq _ _ _
  | _ => exact .inr rfl

theorem Fails.heading {c : Context} {d : Demand} {b : Blame} (h : d.Fails c b) (hd : d.Runtime) :
    b.cause.kind.heading? = some "Execution error" := by
  cases h with
  | argument h => exact h.heading
  | refused _ hr => exact hd _ _ hr

end Demand

namespace Command

/-- The demands of a command, in the order in which they are checked. -/
def demands : Command → List Demand
  | say _ message => [.any message]
  | goto _ x y z => [.coordinate "GOTO" x, .coordinate "GOTO" y, .coordinate "GOTO" z]
  | attack _ target => [.any target]
  | dig _ none => []
  | dig _ (some block) => [.any block]
  | place _ item (some x) (some y) (some z) =>
    [.any item, .coordinate "PLACE" x, .coordinate "PLACE" y, .coordinate "PLACE" z]
  | place _ item _ _ _ => [.any item]
  | equip _ item => [.any item]
  | drop _ item none => [.any item]
  | drop _ item (some n) => [.any item, .count n]
  | wait _ seconds => [.duration seconds]
  | misfit _ => []

/-- A command fails for the first of its arguments that is not as demanded. -/
inductive Fails (c : Context) (command : Command) : Blame → Prop
  | intro {before after : List Demand} {d : Demand} {b : Blame}
    (hd : command.demands = before ++ d :: after) (hb : ∀ d' ∈ before, d'.Met c)
    (h : d.Fails c b) : Fails c command b

theorem demands_runtime (c : Command) : ∀ d ∈ c.demands, d.Runtime := by
  have any := Demand.runtime_any
  cases c with
  | say loc message => simp [demands, any]
  | goto loc x y z => simp [demands, Demand.runtime_coordinate]
  | attack loc target => simp [demands, any]
  | dig loc block => cases block <;> simp [demands, any]
  | place loc item x y z =>
    cases x <;> cases y <;> cases z <;> simp [demands, any, Demand.runtime_coordinate]
  | equip loc item => simp [demands, any]
  | drop loc item count => cases count <;> simp [demands, any, Demand.runtime_count]
  | wait loc seconds => simp [demands, Demand.runtime_duration]
  | misfit tree => simp [demands]

theorem Fails.heading {c : Context} {command : Command} {b : Blame} (h : command.Fails c b) :
    b.cause.kind.heading? = some "Execution error" := by
  obtain ⟨hd, -, hf⟩ := h
  refine hf.heading (command.demands_runtime _ ?_)
  rw [hd]
  simp

theorem demands_arguments (c : Command) : c.demands.map (·.argument) = c.arguments := by
  cases c with
  | dig loc block => cases block <;> rfl
  | place loc item x y z => cases x <;> cases y <;> cases z <;> rfl
  | drop loc item count => cases count <;> rfl
  | _ => rfl

theorem argument_mem {c : Command} {before after : List Demand} {d : Demand}
    (h : c.demands = before ++ d :: after) : d.argument ∈ c.arguments := by
  rw [← c.demands_arguments, h]
  simp

end Command

namespace Run

def Blameless {α : Type} (part : RunOn β α) : Prop :=
  ∀ m e m', part m ≠ .error (.trouble (.error e)) m'

section Blameless

variable {α γ : Type}

theorem blameless_attempt (part : RunOn β α) : Blameless (attempt part) := by
  intro m e m' h
  cases (attempt_error h).1

instance : StepLaw (fun _ => Blameless (β := β)) where
  pure _ _ _ _ h := by cases h
  fault _ _ _ _ h := by cases h
  bind hp hf m e m' h := by
    rcases bind_error h with hm | ⟨a, m₁, -, hm⟩
    · exact hp m e m' hm
    · exact hf a m₁ e m' hm
  consult _ hf m e m' h := hf m m e m' h
  attempt _ := blameless_attempt _
  locate loc hp m e m' h := by
    rcases locate_error h with ⟨t, ht, hm⟩ | ⟨ht, -⟩
    · cases t with
      | fault f => cases ht
      | error error => exact hp m error m' hm
    · cases ht
  log _ _ _ _ _ h := by cases h
  wait _ _ _ _ h := by cases h

end Blameless

end Run

/-- A bot that keeps to itself, and whose refusals are faults of the host. -/
class HostPort (β : Type) [Port β] : Prop extends LawfulPort β where
  blameless : ∀ {α : Type} (operation : Operation α),
    Run.Blameless (Port.call operation : RunOn β α)

/-- What a bot answers that agrees to everything and sees nothing. -/
def Operation.emptyAnswer : {α : Type} → Operation α → α
  | _, .say _ => ()
  | _, .goto _ => true
  | _, .attack _ => ()
  | _, .dig _ => ()
  | _, .place _ _ => ()
  | _, .equip _ _ => ()
  | _, .toss _ _ => ()
  | _, .position => ⟨0, 0, 0⟩
  | _, .nearestEntity _ => none
  | _, .nearestBlock _ => none
  | _, .lookAt _ _ => none
  | _, .findItem _ => none
  | _, .bestTool _ => none
  | _, .read _ => fun _ => .null

/-- A bot in an empty world. It goes through a list of what becomes of the calls that are made: one
that has a fault is refused for it. -/
structure Idle where
  faults : List (Option Fault) := []

namespace Run

instance [Port β] [HostPort β] : PortLaw (fun _ => Blameless (β := β)) where
  call := HostPort.blameless

instance : Port Idle where
  call operation m :=
    match m.bot.faults with
    | some f :: later => .error (.trouble (.fault f)) { m with bot := ⟨later⟩ }
    | none :: later => .ok operation.emptyAnswer { m with bot := ⟨later⟩ }
    | [] => .ok operation.emptyAnswer m
  settle _ bot := bot

theorem idle_cases {α : Type} (operation : Operation α) (m : Machine Idle) :
    (∃ b, Port.call operation m = .ok operation.emptyAnswer { m with bot := b }) ∨
    ∃ f b, Port.call operation m = .error (.trouble (.fault f)) { m with bot := b } := by
  unfold Port.call instPortIdle
  dsimp only
  split
  · exact .inr ⟨_, _, rfl⟩
  · exact .inl ⟨_, rfl⟩
  · exact .inl ⟨_, rfl⟩

instance : HostPort Idle where
  context operation m := by
    rcases idle_cases operation m with ⟨_, h⟩ | ⟨_, _, h⟩ <;> rw [RunOn.after, h]
  lasts operation m m' hm := by
    rcases idle_cases operation m with ⟨_, h⟩ | ⟨_, _, h⟩ <;>
    · rw [h] at hm
      cases hm
  blameless operation m e m' hm := by
    rcases idle_cases operation m with ⟨_, h⟩ | ⟨_, _, h⟩ <;>
    · rw [h] at hm
      cases hm

/-- The trouble with the first of some arguments that is not as demanded. -/
def firstTrouble (c : Context) : List Demand → Option Trouble
  | [] => none
  | d :: ds =>
    match d.verdict c with
    | .ok _ => firstTrouble c ds
    | .error t => some t

theorem firstTrouble_eq_some {c : Context} {ds : List Demand} {t : Trouble}
    (h : firstTrouble c ds = some t) :
    ∃ before d after, ds = before ++ d :: after ∧ (∀ d' ∈ before, d'.Met c) ∧
      d.verdict c = .error t := by
  induction ds with
  | nil => cases h
  | cons d ds ih =>
    unfold firstTrouble at h
    split at h
    · next v hv =>
      obtain ⟨before, d', after, hds, hb, ht⟩ := ih h
      refine ⟨d :: before, d', after, by rw [hds, List.cons_append], fun d'' hm => ?_, ht⟩
      rcases List.mem_cons.mp hm with rfl | hm
      · exact Demand.met_of_verdict hv
      · exact hb d'' hm
    · next t' ht =>
      cases h
      exact ⟨[], d, ds, rfl, fun _ hm => (nomatch hm), ht⟩

theorem firstTrouble_append {c : Context} {before after : List Demand} {d : Demand} {t : Trouble}
    (hb : ∀ d' ∈ before, d'.Met c) (ht : d.verdict c = .error t) :
    firstTrouble c (before ++ d :: after) = some t := by
  induction before with
  | nil => simp only [List.nil_append, firstTrouble, ht]
  | cons d' before ih =>
    obtain ⟨v, hv⟩ := (hb d' List.mem_cons_self).verdict
    simp only [List.cons_append, firstTrouble, hv]
    exact ih fun d'' hm => hb d'' (List.mem_cons_of_mem _ hm)

/-- A part that fails at once with the first argument that is not as demanded, and raises no errors
of the script otherwise. -/
def Gated {α : Type} (ds : List Demand) (part : RunOn β α) : Prop := ∀ m : Machine β,
  match firstTrouble m.context ds with
  | some t => part m = .error (.trouble t) m
  | none => ∀ e m', part m ≠ .error (.trouble (.error e)) m'

/-- A part that only checks one argument. -/
def Checks {α : Type} (d : Demand) (part : RunOn β α) : Prop := ∀ m : Machine β,
  match d.verdict m.context with
  | .ok _ => ∃ a, part m = .ok a m
  | .error t => part m = .error (.trouble t) m

section Gates

variable {α γ : Type}

theorem gated_nil {part : RunOn β α} (h : Blameless part) : Gated [] part := h

theorem gated_bind {d : Demand} {ds : List Demand} {part : RunOn β α} {f : α → RunOn β γ}
    (hp : Checks d part) (hf : ∀ a, Gated ds (f a)) : Gated (d :: ds) (part >>= f) := by
  intro m
  have hm := hp m
  cases hv : d.verdict m.context with
  | ok v =>
    simp only [hv] at hm
    obtain ⟨a, ha⟩ := hm
    simp only [firstTrouble, hv, bind_of_ok ha]
    exact hf a m
  | error t =>
    simp only [hv] at hm
    simp only [firstTrouble, hv]
    exact bind_of_error hm f

theorem checks_of_eval {d : Demand} {f : Value → RunOn β α}
    (h : ∀ v (m : Machine β), match d.refusal v with
      | none => ∃ a, f v m = .ok a m
      | some cause => f v m = .error (.trouble (.error (.locatedAt cause d.argument.loc))) m) :
    Checks d (evaluate d.argument >>= f) := by
  intro m
  unfold Demand.verdict
  cases he : d.argument.eval m.context with
  | error t => exact bind_of_error (evaluate_error he) f
  | ok v =>
    have hv := h v m
    dsimp only
    rw [bind_of_ok (evaluate_ok he)]
    cases hr : d.refusal v with
    | none =>
      rw [hr] at hv
      exact hv
    | some cause =>
      rw [hr] at hv
      exact hv

theorem checks_argumentText (e : Expr) : Checks (.any e) (argumentText e : RunOn β String) :=
  checks_of_eval (d := .any e) fun v _ => ⟨v.text, rfl⟩

theorem Checks.map {d : Demand} {part : RunOn β α} (h : Checks d part) (g : α → γ) :
    Checks d (g <$> part) := by
  intro m
  have hm := h m
  cases hv : d.verdict m.context with
  | ok v =>
    simp only [hv] at hm
    obtain ⟨a, ha⟩ := hm
    exact ⟨g a, bind_of_ok ha (fun a => pure (g a))⟩
  | error t =>
    simp only [hv] at hm
    exact bind_of_error hm (fun a => pure (g a))

theorem checks_coordinate (command : String) (e : Expr) :
    Checks (.coordinate command e) (coordinate command e : RunOn β Float) := by
  refine checks_of_eval (d := .coordinate command e) fun v m => ?_
  cases v with
  | number x => exact ⟨x, rfl⟩
  | _ => rfl

theorem checks_dropCount (e : Expr) :
    Checks (.count e) (dropCount (some e) : RunOn β Int) := by
  refine checks_of_eval (d := .count e) fun v m => ?_
  cases v with
  | number x =>
    dsimp only [Demand.count]
    by_cases h : (x.isFinite && 1 ≤ x) = true
    · simp only [h, if_true]
      exact ⟨_, rfl⟩
    · simp only [h]
      rfl
  | _ => rfl

theorem gated_point {command : String} (x y z : Expr) {f : Point → RunOn β γ}
    (hf : ∀ p, Blameless (f p)) :
    Gated [.coordinate command x, .coordinate command y, .coordinate command z]
      (point command x y z >>= f) := by
  unfold point
  simp only [bind_assoc, pure_bind]
  refine gated_bind (checks_coordinate command x) fun x => ?_
  refine gated_bind (checks_coordinate command y) fun y => ?_
  exact gated_bind (checks_coordinate command z) fun z => gated_nil (hf _)

theorem gated_wait (seconds : Expr) : Gated [.duration seconds] (wait (β := β) seconds) := by
  intro m
  unfold wait firstTrouble Demand.verdict
  cases he : seconds.eval m.context with
  | error t => simp only [Demand.duration, he, bind_of_error (evaluate_error he)]
  | ok v =>
    simp only [Demand.duration, he, bind_of_ok (evaluate_ok he)]
    cases v with
    | number x =>
      dsimp only
      by_cases h : (x.isFinite && 0 ≤ x) = true
      · simp only [h, if_true]
        exact law_sleep (P := fun _ => Blameless) x m
      · simp only [h]
        rfl
    | _ => rfl

end Gates

variable [Port β] [HostPort β]

/-- A command checks its arguments first. Nothing after that is an error of the script. -/
theorem gated_carryOut {c : Command} (h : c.IsNode) :
    Gated c.demands (carryOut c : RunOn β CommandResult) := by
  cases h with
  | say loc message =>
    exact gated_bind (checks_argumentText message) fun text =>
      gated_nil (law_sayText (P := fun _ => Blameless) text)
  | goto loc x y z =>
    exact gated_point x y z (law_travelTo (P := fun _ => Blameless))
  | attack loc target =>
    exact gated_bind (checks_argumentText target) fun name =>
      gated_nil (law_attackNamed (P := fun _ => Blameless) name)
  | dig loc block =>
    cases block with
    | none => exact gated_nil (law_digNearest (P := fun _ => Blameless) none)
    | some e =>
      exact gated_bind ((checks_argumentText e).map some) fun kind =>
        gated_nil (law_digNearest (P := fun _ => Blameless) kind)
  | place loc item x y z =>
    have nowhere : Gated [.any item]
        (argumentText item >>= fun name => placeNamed name none : RunOn β CommandResult) :=
      gated_bind (checks_argumentText item) fun name =>
        gated_nil (law_placeNamed (P := fun _ => Blameless) name none)
    cases x with
    | none => exact nowhere
    | some x =>
      cases y with
      | none => exact nowhere
      | some y =>
        cases z with
        | none => exact nowhere
        | some z =>
          exact gated_bind (checks_argumentText item) fun name =>
            gated_point x y z fun p => law_placeNamed (P := fun _ => Blameless) name (some p)
  | equip loc item =>
    exact gated_bind (checks_argumentText item) fun name =>
      gated_nil (law_equipNamed (P := fun _ => Blameless) name)
  | drop loc item count =>
    cases count with
    | none =>
      exact gated_bind (checks_argumentText item) fun name =>
        gated_nil (law_dropNamed (P := fun _ => Blameless) name 1)
    | some n =>
      exact gated_bind (checks_argumentText item) fun name =>
        gated_bind (checks_dropCount n) fun wanted =>
          gated_nil (law_dropNamed (P := fun _ => Blameless) name wanted)
  | wait loc seconds => exact gated_wait seconds

/-- A command that fails for an argument ends the run before it asks anything of the bot. -/
theorem command_of_fails {c : Command} {m : Machine β} {b : Blame} (h : c.Fails m.context b) :
    ∃ error, command c m = .error (.trouble (.error error)) m ∧ b.ToldBy error := by
  obtain ⟨hd, hb, hf⟩ := h
  obtain ⟨error, hv, ht⟩ := hf.verdict
  have hnode : c.IsNode := by
    cases c with
    | misfit tree => simp [Command.demands] at hd
    | _ => constructor
  have hc := gated_carryOut hnode m
  rw [hd, firstTrouble_append hb hv] at hc
  exact ⟨error, command_of_carryOut hc, ht⟩

theorem fails_of_command {P : Location → Prop} {c : Command} (hc : c.Over P) {m m' : Machine β}
    {halt : Halt} (h : command c m = .error halt m') :
    ∃ error b, halt = .trouble (.error error) ∧ c.Fails m.context b ∧ b.ToldBy error := by
  obtain ⟨error, rfl, hcarry⟩ := carryOut_of_command h
  have hg := gated_carryOut hc.isNode m
  cases ht : firstTrouble m.context c.demands with
  | none =>
    rw [ht] at hg
    exact (hg error m' hcarry).elim
  | some t =>
    rw [ht] at hg
    rw [hcarry] at hg
    cases hg
    obtain ⟨before, d, after, hd, hb, hv⟩ := firstTrouble_eq_some ht
    have ho : d.argument.Over P := hc.arguments _ (Command.argument_mem hd)
    obtain ⟨error', b, he, hf, hold⟩ := Demand.fails_of_verdict ho hv
    cases he
    exact ⟨error, b, rfl, ⟨hd, hb, hf⟩, hold⟩

end Run

end AgentScript

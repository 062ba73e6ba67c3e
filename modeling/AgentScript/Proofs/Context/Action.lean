import AgentScript.Proofs.Context.Readings

/-! What can be done to a context, as data, and histories of it. An action works on the context in
place: what it has changed when it fails stays changed. No action fails after its first change, so
that one that fails leaves the context as it was. -/
namespace AgentScript.Context

/-- What an update is given: a snapshot, or data with a field for each gauge. Null stands for no
readings at all. -/
inductive Readings
  | snapshot (s : Snapshot)
  | data (j : Json)

def Readings.snapshot? : Readings → Except Fault (Option Snapshot)
  | snapshot s => .ok (some s)
  | data .null => .ok none
  | data j => (Snapshot.ofJson j).map some

def Readings.variables (given : Readings) : Except Fault (List (String × Value)) := do
  match ← given.snapshot? with
  | none => return []
  | some s => s.toVariables

inductive Figure
  | statement
  | command
  | error (message : String)
  | start (now : Float)
  | finish (now : Float)

def note (c : Context) : Figure → Context
  | .statement => c.countStatement
  | .command => c.countCommand
  | .error message => c.recordError message
  | .start now => c.markStart now
  | .finish now => c.markComplete now

abbrev Edit : Type → Type := EStateM Trouble Context

namespace Edit

def lift {α : Type} (r : Except Trouble α) : Edit α := fun c =>
  match r with
  | .ok a => .ok a c
  | .error t => .error t c

def change (f : Context → Except Trouble Context) : Edit Unit := fun c =>
  match f c with
  | .ok c' => .ok () c'
  | .error t => .error t c

def write : List (String × Value) → Edit Unit
  | [] => pure ()
  | x :: rest => do
    modify (·.writeSystem x.1 x.2)
    write rest

def update (given : Readings) (now : Float) : Edit Unit := do
  let shown ← lift (given.variables.mapError .fault)
  write shown
  modify (·.writeSystem "timestamp" (.number now))

end Edit

inductive Action
  | define (name : String) (v : Value) (scope : Scope) (readonly : Bool) (loc : Location)
  | set (name : String) (v : Value)
  | enter
  | exit
  | update (given : Readings) (now : Float)
  | reset (now : Float)
  | note (figure : Figure)

def Action.run : Action → Edit Unit
  | define name v scope readonly loc =>
    Edit.change fun c => (c.define name v scope readonly loc).mapError .error
  | set name v => Edit.change fun c => (c.set name v).mapError .error
  | enter => modify Context.enter
  | exit => modify Context.exit
  | update given now => Edit.update given now
  | reset now => modify (Context.reset · now)
  | note figure => modify (Context.note · figure)

/-- What comes of an action: a context, or why there is none. -/
def Action.outcome (a : Action) (c : Context) : Except Trouble Context :=
  match a with
  | define name v scope readonly loc => (c.define name v scope readonly loc).mapError .error
  | set name v => (c.set name v).mapError .error
  | enter => .ok c.enter
  | exit => .ok c.exit
  | update given now => do
    let s ← given.snapshot?.mapError .fault
    (c.update s now).mapError .fault
  | reset now => .ok (c.reset now)
  | note figure => .ok (c.note figure)

theorem Edit.write_eq (shown : List (String × Value)) (c : Context) :
    write shown c = .ok () (shown.foldl (fun c (name, v) => c.writeSystem name v) c) := by
  induction shown generalizing c with
  | nil => rfl
  | cons x rest ih => exact ih (c.writeSystem x.1 x.2)

/-- An update writes nothing before all readings are converted. -/
theorem Edit.update_eq (given : Readings) (now : Float) (c : Context) :
    update given now c =
      change (fun c => (given.variables.map (c.showing · now)).mapError Trouble.fault) c := by
  unfold update change
  cases given.variables with
  | error f => rfl
  | ok shown =>
    change EStateM.bind (write shown) _ c = _
    unfold EStateM.bind
    rw [write_eq]
    rfl

theorem Action.outcome_update (given : Readings) (now : Float) (c : Context) :
    (Action.update given now).outcome c =
      (given.variables.map (c.showing · now)).mapError Trouble.fault := by
  unfold Action.outcome Readings.variables
  dsimp only
  cases given.snapshot? with
  | error f => rfl
  | ok s =>
    cases s with
    | none => rfl
    | some s =>
      change (c.update (some s) now).mapError Trouble.fault = _
      rw [update_some]
      rfl

/-- An action that fails has changed nothing. -/
theorem Action.run_eq (a : Action) (c : Context) : a.run c = Edit.change a.outcome c := by
  cases a with
  | update given now =>
    change Edit.update given now c = _
    rw [Edit.update_eq]
    unfold Edit.change
    rw [outcome_update]
  | _ => rfl

section

variable {c c' : Context} {a : Action}

theorem Action.run_of_ok (h : a.outcome c = .ok c') : a.run c = .ok () c' := by
  rw [run_eq, Edit.change, h]

theorem Action.run_of_error {t : Trouble} (h : a.outcome c = .error t) : a.run c = .error t c := by
  rw [run_eq, Edit.change, h]

variable {given : Readings} {now : Float}

theorem Action.run_update_ok {shown : List (String × Value)} (h : given.variables = .ok shown) :
    (Action.update given now).run c = .ok () (c.showing shown now) :=
  run_of_ok (by rw [outcome_update, h]; rfl)

theorem Action.run_update_error {f : Fault} (h : given.variables = .error f) :
    (Action.update given now).run c = .error (.fault f) c :=
  run_of_error (by rw [outcome_update, h]; rfl)

end

/-- The context that an action leaves behind, also when it fails. -/
def act (c : Context) (a : Action) : Context :=
  match a.run c with
  | .ok _ c' => c'
  | .error _ c' => c'

/-- The context after some actions, the last of which stands first. -/
def since (c : Context) (actions : List Action) : Context :=
  actions.foldr (fun a c => c.act a) c

theorem act_of_ok {c c' : Context} {a : Action} (h : a.run c = .ok () c') : c.act a = c' := by
  unfold act
  rw [h]

theorem act_of_error {c c' : Context} {a : Action} {t : Trouble} (h : a.run c = .error t c') :
    c.act a = c' := by
  unfold act
  rw [h]

end AgentScript.Context

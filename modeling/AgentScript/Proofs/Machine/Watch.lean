import AgentScript.Machine.Execution

/-! Runs that are watched: which statements and iterations begin, and how commands end. Watching a
run does not change it. -/
namespace AgentScript

/-- What is seen of a run: a statement or an iteration begins, late if a stop was asked for before,
or a command ends. -/
inductive Event
  | statement (late : Bool)
  | iteration (late : Bool)
  | command (fails : Bool)
deriving DecidableEq, Repr

structure Watch where
  machine : Machine
  events : List Event := []

abbrev Watched : Type → Type := EStateM Halt Watch

namespace Watched

variable {α β : Type}

def quiet (part : Run α) : Watched α := fun w =>
  match part w.machine with
  | .ok a m => .ok a { w with machine := m }
  | .error halt m => .error halt { w with machine := m }

def mark (event : Bool → Event) : Watched Unit :=
  modify fun w => { w with events := w.events ++ [event w.machine.stopRequested] }

def locate (loc : Location) (part : Watched α) : Watched α := fun w =>
  match part w with
  | .ok a w => .ok a w
  | .error (.trouble t) w => .error (.trouble (t.locate loc)) w
  | .error .stopped w => .error .stopped w

def inScope (part : Watched α) : Watched α := fun w =>
  match part { w with machine := { w.machine with context := w.machine.context.enter } } with
  | .ok a w => .ok a { w with machine := { w.machine with context := w.machine.context.exit } }
  | .error halt w =>
    .error halt { w with machine := { w.machine with context := w.machine.context.exit } }

def counted (loc : Location) (kind : String) (part : Watched Unit) : Watched Unit := do
  quiet (Run.log .debug ("line " ++ toString loc.line ++ ": " ++ kind))
  locate loc part
  quiet (Run.changeContext fun c => .ok c.countStatement)

def command (c : Command) : Watched CommandResult := fun w =>
  match Run.command c w.machine with
  | .ok result m => .ok result ⟨m, w.events ++ [.command !result.success]⟩
  | .error halt m => .error halt ⟨m, w.events ++ [.command true]⟩

def commandStatement (loc : Location) (c : Command) : Watched Unit := do
  let result ← command c
  quiet (Run.conclude loc result)

def iteration (body : Watched Unit) (index : Nat) : Watched Unit := inScope do
  quiet (Run.changeContext fun c =>
    (c.define Run.indexName (.number (Float.ofNat index)) .local false ⟨0, 0⟩).mapError .error)
  body

def times (part : Nat → Watched Unit) (index count : Nat) : Watched Unit :=
  match count with
  | 0 => pure ()
  | count + 1 => do
    quiet Run.checkStop
    mark .iteration
    part index
    times part (index + 1) count

def strayBody (tree : Json) : Watched Unit :=
  match tree with
  | .str "" => pure ()
  | .str s => do
    quiet Run.checkStop
    mark .statement
    quiet (Run.strayStatement (.str s))
  | tree => quiet (Run.strayBody tree)

mutual

def statement : Stmt → Watched Unit
  | .branch loc condition yes no => counted loc "IfStatement" do
    let v ← quiet (Run.evaluate condition)
    inScope (if v.truthy then chosen yes else otherwise no)
  | .loop loc count body => counted loc "RepeatStatement" do
    let v ← quiet (Run.evaluate count)
    let n ← quiet (Run.lift ((Run.repetitions v).mapError Cause.trouble))
    times (iteration (block body)) 0 n
  | .command loc c => counted loc "CommandStatement" (commandStatement loc c)
  | s => quiet (Run.statement s)

def block : Body → Watched Unit
  | .statements list => statements list
  | .misfit tree => strayBody tree

def chosen : Body → Watched Unit
  | .statements list => statements list
  | .misfit .null => pure ()
  | .misfit tree => strayBody tree

def otherwise : Option Body → Watched Unit
  | some body => chosen body
  | none => pure ()

def statements : List Stmt → Watched Unit
  | [] => pure ()
  | s :: rest => do
    quiet Run.checkStop
    mark .statement
    statement s
    statements rest

end

def program (body : Body) : Watched Unit := do
  quiet Run.refresh
  block body

def erase (r : EStateM.Result Halt Watch α) : EStateM.Result Halt Machine α :=
  match r with
  | .ok a w => .ok a w.machine
  | .error halt w => .error halt w.machine

def Shows (watched : Watched α) (part : Run α) : Prop := ∀ w, erase (watched w) = part w.machine

theorem shows_pure (a : α) : Shows (pure a) (pure a) := fun _ => rfl

theorem shows_quiet (part : Run α) : Shows (quiet part) part := by
  intro w
  unfold quiet
  cases part w.machine <;> rfl

theorem shows_command (c : Command) : Shows (command c) (Run.command c) := by
  intro w
  unfold command
  cases Run.command c w.machine <;> rfl

theorem shows_bind {watched : Watched α} {part : Run α} {f : α → Watched β} {g : α → Run β}
    (h : Shows watched part) (hf : ∀ a, Shows (f a) (g a)) :
    Shows (watched >>= f) (part >>= g) := by
  intro w
  have hw := h w
  change erase (EStateM.bind watched f w) = EStateM.bind part g w.machine
  unfold EStateM.bind
  rw [← hw]
  cases watched w with
  | ok a w' => exact hf a w'
  | error halt w' => rfl

theorem shows_mark (event : Bool → Event) {watched : Watched α} {part : Run α}
    (h : Shows watched part) : Shows (mark event >>= fun _ => watched) part :=
  fun w => h { w with events := w.events ++ [event w.machine.stopRequested] }

theorem shows_locate (loc : Location) {watched : Watched α} {part : Run α}
    (h : Shows watched part) : Shows (locate loc watched) (Run.locate loc part) := by
  intro w
  unfold locate Run.locate
  rw [← h w]
  cases watched w with
  | ok a w' => rfl
  | error halt w' => cases halt <;> rfl

theorem shows_inScope {watched : Watched α} {part : Run α} (h : Shows watched part) :
    Shows (inScope watched) (Run.inScope part) := by
  intro w
  unfold inScope Run.inScope
  rw [← h { w with machine := { w.machine with context := w.machine.context.enter } }]
  cases watched { w with machine := { w.machine with context := w.machine.context.enter } } <;> rfl

theorem shows_counted (loc : Location) (kind : String) {watched : Watched Unit} {part : Run Unit}
    (h : Shows watched part) : Shows (counted loc kind watched) (Run.counted loc kind part) := by
  refine shows_bind (shows_quiet _) fun _ => ?_
  exact shows_bind (shows_locate loc h) fun _ => shows_quiet _

theorem shows_iteration {watched : Watched Unit} {part : Run Unit} (h : Shows watched part)
    (index : Nat) : Shows (iteration watched index) (Run.iteration part index) :=
  shows_inScope (shows_bind (shows_quiet _) fun _ => h)

theorem shows_times {watched : Nat → Watched Unit} {part : Nat → Run Unit}
    (h : ∀ i, Shows (watched i) (part i)) (index count : Nat) :
    Shows (times watched index count) (Run.times part index count) := by
  induction count generalizing index with
  | zero => exact shows_pure ()
  | succ count ih =>
    refine shows_bind (shows_quiet _) fun _ => shows_mark _ ?_
    exact shows_bind (h index) fun _ => ih (index + 1)

theorem shows_strayBody (tree : Json) : Shows (strayBody tree) (Run.strayBody tree) := by
  unfold strayBody
  split
  · exact shows_pure ()
  · next s hs =>
    have he : Run.strayBody (.str s) = (do
        Run.checkStop
        Run.strayStatement (.str s) : Run Unit) := by
      rw [Run.strayBody]
      exact hs
    rw [he]
    exact shows_bind (shows_quiet _) fun _ => shows_mark _ (shows_quiet _)
  · exact shows_quiet _

mutual

theorem shows_statement : (s : Stmt) → Shows (statement s) (Run.statement s)
  | .branch loc condition yes no => by
    refine shows_counted loc _ (shows_bind (shows_quiet _) fun v => shows_inScope ?_)
    cases v.truthy with
    | true => exact shows_chosen yes
    | false => exact shows_otherwise no
  | .loop loc count body => by
    refine shows_counted loc _ (shows_bind (shows_quiet _) fun v => ?_)
    refine shows_bind (shows_quiet _) fun n => ?_
    exact shows_times (shows_iteration (shows_block body)) 0 n
  | .command loc c =>
    shows_counted loc _ (shows_bind (shows_command c) fun _ => shows_quiet _)
  | .declare .. => shows_quiet _
  | .assign .. => shows_quiet _
  | .evaluate .. => shows_quiet _
  | .misfit _ => shows_quiet _

theorem shows_block : (b : Body) → Shows (block b) (Run.block b)
  | .statements list => shows_statements list
  | .misfit tree => shows_strayBody tree

theorem shows_chosen : (b : Body) → Shows (chosen b) (Run.chosen b)
  | .statements list => shows_statements list
  | .misfit tree => by
    unfold chosen Run.chosen
    cases tree with
    | null => exact shows_pure ()
    | _ => exact shows_strayBody _

theorem shows_otherwise : (b : Option Body) → Shows (otherwise b) (Run.otherwise b)
  | some body => shows_chosen body
  | none => shows_pure ()

theorem shows_statements : (list : List Stmt) → Shows (statements list) (Run.statements list)
  | [] => shows_pure ()
  | s :: rest => by
    refine shows_bind (shows_quiet _) fun _ => shows_mark _ ?_
    exact shows_bind (shows_statement s) fun _ => shows_statements rest

end

theorem shows_program (b : Body) : Shows (program b) (Run.program b) :=
  shows_bind (shows_quiet _) fun _ => shows_block b

def seen (r : EStateM.Result Halt Watch α) : List Event :=
  match r with
  | .ok _ w => w.events
  | .error _ w => w.events

end Watched

namespace Machine

/-- Runs a program as `execute` does, and watches it. -/
def watch (m : Machine) (p : Program) : (Except Fault Outcome × Machine) × List Event :=
  match m.begin with
  | .error f => ((.error f, m), [])
  | .ok m =>
    match p.body, p.size with
    | .ok body, .ok n =>
      let start := m.log .info ("Executing program with " ++ toString n ++ " statements")
      let r := Watched.program body ⟨start, []⟩
      (ended (Watched.erase r), Watched.seen r)
    | .error f, _ => ((.error f, m), [])
    | _, .error f => ((.error f, m), [])

theorem watch_execute (m : Machine) (p : Program) : (m.watch p).1 = m.execute p := by
  unfold watch execute
  cases m.begin with
  | error f => rfl
  | ok m =>
    cases p.body with
    | error f => rfl
    | ok body =>
      cases p.size with
      | error f => rfl
      | ok n => exact congrArg ended (Watched.shows_program body _)

end Machine

end AgentScript

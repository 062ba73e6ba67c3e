import AgentScript.Proofs.Machine.Lawful

/-! Runs that are escorted: something is kept beside the machine, and commands are carried out in a
way that may use it. As far as the machine goes an escorted run is a run, if that is so of its
commands. -/
namespace AgentScript

variable {α β γ : Type}

/-- A part of a run that keeps something beside the machine. -/
abbrev Escorted (γ : Type) : Type → Type := EStateM Halt (Machine × γ)

namespace Escorted

/-- A part that leaves alone what is kept beside the machine. -/
def quiet (part : Run α) : Escorted γ α := fun s =>
  match part s.1 with
  | .ok a m => .ok a (m, s.2)
  | .error halt m => .error halt (m, s.2)

def attempt (part : Escorted γ α) : Escorted γ (Except Trouble α) := fun s =>
  match part s with
  | .ok a s => .ok (.ok a) s
  | .error (.trouble t) s => .ok (.error t) s
  | .error .stopped s => .error .stopped s

def locate (loc : Location) (part : Escorted γ α) : Escorted γ α := fun s =>
  match part s with
  | .ok a s => .ok a s
  | .error (.trouble t) s => .error (.trouble (t.locate loc)) s
  | .error .stopped s => .error .stopped s

def inScope (part : Escorted γ α) : Escorted γ α := fun s =>
  match part ({ s.1 with context := s.1.context.enter }, s.2) with
  | .ok a s => .ok a ({ s.1 with context := s.1.context.exit }, s.2)
  | .error halt s => .error halt ({ s.1 with context := s.1.context.exit }, s.2)

def counted (loc : Location) (kind : String) (part : Escorted γ Unit) : Escorted γ Unit := do
  quiet (Run.log .debug ("line " ++ toString loc.line ++ ": " ++ kind))
  locate loc part
  quiet (Run.changeContext fun c => .ok c.countStatement)

def iteration (body : Escorted γ Unit) (index : Nat) : Escorted γ Unit := inScope do
  quiet (Run.changeContext fun c =>
    (c.define Run.indexName (.number (Float.ofNat index)) .local false ⟨0, 0⟩).mapError .error)
  body

def times (part : Nat → Escorted γ Unit) (index count : Nat) : Escorted γ Unit :=
  match count with
  | 0 => pure ()
  | count + 1 => do
    quiet Run.checkStop
    part index
    times part (index + 1) count

section Statements

variable (command : Command → Escorted γ CommandResult)

mutual

def statement : Stmt → Escorted γ Unit
  | .branch loc condition yes no => counted loc "IfStatement" do
    let v ← quiet (Run.evaluate condition)
    inScope (if v.truthy then chosen yes else otherwise no)
  | .loop loc count body => counted loc "RepeatStatement" do
    let v ← quiet (Run.evaluate count)
    let n ← quiet (Run.lift ((Run.repetitions v).mapError Cause.trouble))
    times (iteration (block body)) 0 n
  | .command loc c => counted loc "CommandStatement" do
    quiet (Run.conclude loc (← command c))
  | s => quiet (Run.statement s)

def block : Body → Escorted γ Unit
  | .statements list => statements list
  | .misfit tree => quiet (Run.strayBody tree)

def chosen : Body → Escorted γ Unit
  | .statements list => statements list
  | .misfit tree => quiet (Run.chosen (.misfit tree))

def otherwise : Option Body → Escorted γ Unit
  | some body => chosen body
  | none => pure ()

def statements : List Stmt → Escorted γ Unit
  | [] => pure ()
  | s :: rest => do
    quiet Run.checkStop
    statement s
    statements rest

end

def program (body : Body) : Escorted γ Unit := do
  quiet Run.refresh
  block command body

end Statements

def erase (r : EStateM.Result Halt (Machine × γ) α) : EStateM.Result Halt Machine α :=
  match r with
  | .ok a s => .ok a s.1
  | .error halt s => .error halt s.1

def left (r : EStateM.Result Halt (Machine × γ) α) : Machine × γ :=
  match r with
  | .ok _ s => s
  | .error _ s => s

/-- Where an invariant holds, an escorted part does what the part does, and the invariant holds
afterwards. -/
def Shows (I : Machine × γ → Prop) (escorted : Escorted γ α) (part : Run α) : Prop :=
  ∀ s, I s → erase (escorted s) = part s.1 ∧ I (left (escorted s))

/-- An invariant that a run keeps as long as it keeps a relation of machines, and that has nothing
to do with contexts. -/
structure Invariant (R : Machine → Machine → Prop) (I : Machine × γ → Prop) : Prop where
  kept : ∀ {m m' g}, R m m' → I (m, g) → I (m', g)
  context : ∀ {m g} (c : Context), I (m, g) → I ({ m with context := c }, g)

section Parts

variable {I : Machine × γ → Prop}

theorem shows_pure (a : α) : Shows I (pure a) (pure a) := fun _ h => ⟨rfl, h⟩

theorem shows_bind {escorted : Escorted γ α} {part : Run α} {f : α → Escorted γ β} {g : α → Run β}
    (h : Shows I escorted part) (hf : ∀ a, Shows I (f a) (g a)) :
    Shows I (escorted >>= f) (part >>= g) := by
  intro s hs
  obtain ⟨he, hleft⟩ := h s hs
  change erase (EStateM.bind escorted f s) = EStateM.bind part g s.1 ∧
    I (left (EStateM.bind escorted f s))
  unfold EStateM.bind
  rw [← he]
  cases hr : escorted s with
  | ok a s' =>
    rw [hr] at hleft
    exact hf a s' hleft
  | error halt s' =>
    rw [hr] at hleft
    exact ⟨rfl, hleft⟩

theorem shows_get {f : Machine × γ → Escorted γ α} {g : Machine → Run α}
    (h : ∀ s, Shows I (f s) (g s.1)) : Shows I (get >>= f) (get >>= g) := fun s hs => h s s hs

theorem shows_attempt {escorted : Escorted γ α} {part : Run α} (h : Shows I escorted part) :
    Shows I (attempt escorted) (Run.attempt part) := by
  intro s hs
  obtain ⟨he, hleft⟩ := h s hs
  unfold attempt Run.attempt
  rw [← he]
  cases hr : escorted s with
  | ok a s' =>
    rw [hr] at hleft
    exact ⟨rfl, hleft⟩
  | error halt s' =>
    rw [hr] at hleft
    cases halt <;> exact ⟨rfl, hleft⟩

theorem shows_locate (loc : Location) {escorted : Escorted γ α} {part : Run α}
    (h : Shows I escorted part) : Shows I (locate loc escorted) (Run.locate loc part) := by
  intro s hs
  obtain ⟨he, hleft⟩ := h s hs
  unfold locate Run.locate
  rw [← he]
  cases hr : escorted s with
  | ok a s' =>
    rw [hr] at hleft
    exact ⟨rfl, hleft⟩
  | error halt s' =>
    rw [hr] at hleft
    cases halt <;> exact ⟨rfl, hleft⟩

end Parts

section Statements

variable {R : Machine → Machine → Prop} {I : Machine × γ → Prop} (hI : Invariant R I)
include hI

theorem shows_quiet {part : Run α} (hp : Run.Keeps R part) : Shows I (quiet part) part := by
  intro s hs
  have hr := hp s.1
  unfold RunOn.after at hr
  unfold quiet
  cases h : part s.1 with
  | ok a m =>
    rw [h] at hr
    exact ⟨rfl, hI.kept hr hs⟩
  | error halt m =>
    rw [h] at hr
    exact ⟨rfl, hI.kept hr hs⟩

theorem shows_inScope {escorted : Escorted γ α} {part : Run α} (h : Shows I escorted part) :
    Shows I (inScope escorted) (Run.inScope part) := by
  intro s hs
  obtain ⟨he, hleft⟩ := h ({ s.1 with context := s.1.context.enter }, s.2) (hI.context _ hs)
  unfold inScope Run.inScope
  rw [← he]
  cases hr : escorted ({ s.1 with context := s.1.context.enter }, s.2) with
  | ok a s' =>
    rw [hr] at hleft
    exact ⟨rfl, hI.context _ hleft⟩
  | error halt s' =>
    rw [hr] at hleft
    exact ⟨rfl, hI.context _ hleft⟩

variable [Run.AllowsQuiet R]

theorem shows_counted (loc : Location) (kind : String) {escorted : Escorted γ Unit}
    {part : Run Unit} (h : Shows I escorted part) :
    Shows I (counted loc kind escorted) (Run.counted loc kind part) :=
  shows_bind (shows_quiet hI (Run.StepLaw.log (P := fun _ => Run.Keeps R) _ _)) fun _ =>
    shows_bind (shows_locate loc h) fun _ =>
      shows_quiet hI (Run.keeps_count)

theorem shows_iteration {escorted : Escorted γ Unit} {part : Run Unit} (h : Shows I escorted part)
    (index : Nat) : Shows I (iteration escorted index) (Run.iteration part index) :=
  shows_inScope hI (shows_bind
    (shows_quiet hI (Run.keeps_index index)) fun _ => h)

theorem shows_times {escorted : Nat → Escorted γ Unit} {part : Nat → Run Unit}
    (h : ∀ i, Shows I (escorted i) (part i)) (index count : Nat) :
    Shows I (times escorted index count) (Run.times part index count) := by
  induction count generalizing index with
  | zero => exact shows_pure ()
  | succ count ih =>
    exact shows_bind (shows_quiet hI Run.keeps_checkStop) fun _ =>
      shows_bind (h index) fun _ => ih (index + 1)

end Statements

section Statements

variable {R : Machine → Machine → Prop} {I : Machine × γ → Prop}
  {command : Command → Escorted γ CommandResult}

mutual

/-- One case for each kind of statement. -/
theorem shows_statement [Run.AllowsQuiet R] (hI : Invariant R I)
    (hc : ∀ c, Shows I (command c) (Run.command c)) :
    (s : Stmt) → Shows I (statement command s) (Run.statement s)
  | .branch loc condition yes no => by
    have hyes := shows_chosen hI hc yes
    have hno := shows_otherwise hI hc no
    refine shows_counted hI loc _ (shows_bind
      (shows_quiet hI (Run.law_evaluate (P := fun _ => Run.Keeps R) condition)) fun v => ?_)
    refine shows_inScope hI ?_
    split
    · exact hyes
    · exact hno
  | .loop loc count body => by
    have hbody := shows_block hI hc body
    refine shows_counted hI loc _ (shows_bind
      (shows_quiet hI (Run.law_evaluate (P := fun _ => Run.Keeps R) count)) fun v => ?_)
    refine shows_bind (shows_quiet hI (Run.law_lift (P := fun _ => Run.Keeps R) _)) fun n => ?_
    exact shows_times hI (shows_iteration hI hbody) 0 n
  | .command loc c =>
    shows_counted hI loc _ (shows_bind (hc c) fun result =>
      shows_quiet hI (Run.law_conclude (P := fun _ => Run.Keeps R) loc result))
  | .declare .. => shows_quiet hI (Run.law_declare Run.keeps_names _ trivial _)
  | .assign .. => shows_quiet hI (Run.law_assign Run.keeps_names _ trivial _)
  | .evaluate .. => shows_quiet hI (Run.law_evaluation (P := fun _ => Run.Keeps R) _ _)
  | .misfit tree => shows_quiet hI (Run.law_strayStatement (P := fun _ => Run.Keeps R) tree)

theorem shows_block [Run.AllowsQuiet R] (hI : Invariant R I)
    (hc : ∀ c, Shows I (command c) (Run.command c)) :
    (b : Body) → Shows I (block command b) (Run.block b)
  | .statements list => shows_statements hI hc list
  | .misfit tree => shows_quiet hI (Run.law_strayBody (P := fun _ => Run.Keeps R) tree)

theorem shows_chosen [Run.AllowsQuiet R] (hI : Invariant R I)
    (hc : ∀ c, Shows I (command c) (Run.command c)) :
    (b : Body) → Shows I (chosen command b) (Run.chosen b)
  | .statements list => shows_statements hI hc list
  | .misfit tree => shows_quiet hI (Run.law_strayChosen (P := fun _ => Run.Keeps R) tree)

theorem shows_otherwise [Run.AllowsQuiet R] (hI : Invariant R I)
    (hc : ∀ c, Shows I (command c) (Run.command c)) :
    (b : Option Body) → Shows I (otherwise command b) (Run.otherwise b)
  | some body => shows_chosen hI hc body
  | none => shows_pure ()

theorem shows_statements [Run.AllowsQuiet R] (hI : Invariant R I)
    (hc : ∀ c, Shows I (command c) (Run.command c)) :
    (list : List Stmt) → Shows I (statements command list) (Run.statements list)
  | [] => shows_pure ()
  | s :: rest =>
    shows_bind (shows_quiet hI Run.keeps_checkStop) fun _ =>
      shows_bind (shows_statement hI hc s) fun _ => shows_statements hI hc rest

end

/-- A program in full, if its readings keep what its statements keep. -/
theorem shows_program_of [Run.AllowsQuiet R] (hI : Invariant R I)
    (hc : ∀ c, Shows I (command c) (Run.command c)) (hr : Run.Keeps R Run.refresh) (b : Body) :
    Shows I (program command b) (Run.program b) :=
  shows_bind (shows_quiet hI hr) fun _ => shows_block hI hc b

theorem shows_program [Run.AllowsStatements R] (hI : Invariant R I)
    (hc : ∀ c, Shows I (command c) (Run.command c))
    (hu : ∀ s now, Run.Keeps R (Run.changeContext fun c => (c.update s now).mapError .fault))
    (b : Body) : Shows I (program command b) (Run.program b) :=
  shows_program_of hI hc (Run.law_refresh (P := fun _ => Run.Keeps R) hu) b

end Statements

end Escorted

namespace Machine

/-- Runs a program as `execute` does, but with another way to carry out commands. -/
def executeEscorted (command : Command → Escorted γ CommandResult) (m : Machine) (g : γ)
    (p : Program) : (Except Fault Outcome × Machine) × γ :=
  match m.begin with
  | .error f => ((.error f, m), g)
  | .ok m =>
    match p.body, p.size with
    | .ok body, .ok n =>
      let r := Escorted.program command body
        (m.log .info ("Executing program with " ++ toString n ++ " statements"), g)
      (ended (Escorted.erase r), (Escorted.left r).2)
    | .error f, _ => ((.error f, m), g)
    | _, .error f => ((.error f, m), g)

/-- An escorted run is a run, and what is kept beside the machine of it was never used or is left as
the invariant says. -/
theorem executeEscorted_eq {command : Command → Escorted γ CommandResult} {m : Machine} {g : γ}
    {I : Machine × γ → Prop} (hI : ∀ b, Escorted.Shows I (Escorted.program command b) (Run.program b))
    (hstart : ∀ m', m'.running = true → m'.phase = .running → I (m', g)) (p : Program) :
    (m.executeEscorted command g p).1 = m.execute p ∧
      ((m.executeEscorted command g p).2 = g ∨ ∃ m', I (m', (m.executeEscorted command g p).2)) := by
  unfold executeEscorted execute
  cases hb : m.begin with
  | error f => exact ⟨rfl, .inl rfl⟩
  | ok m' =>
    cases p.body with
    | error f => exact ⟨rfl, .inl rfl⟩
    | ok body =>
      cases p.size with
      | error f => exact ⟨rfl, .inl rfl⟩
      | ok n =>
        dsimp only
        have hlogged : I (m'.log .info ("Executing program with " ++ toString n ++ " statements"),
            g) := by
          rw [begin_eq hb]
          exact hstart _ rfl rfl
        obtain ⟨he, hleft⟩ := hI body _ hlogged
        rw [he]
        exact ⟨rfl, .inr ⟨_, hleft⟩⟩

end Machine

end AgentScript

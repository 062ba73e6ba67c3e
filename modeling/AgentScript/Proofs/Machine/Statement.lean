import AgentScript.Proofs.Machine.Command
import AgentScript.Proofs.Syntax.Match

/-! The laws of statements hold of every statement and of every run. -/
namespace AgentScript.Run

variable {β : Type} {P : (α : Type) → RunOn β α → Prop}

section Parts

variable [StepLaw P]

theorem law_counted (loc : Location) (kind : String) {part : RunOn β Unit} (hp : P _ part)
    (hc : P _ (changeContext fun c => .ok c.countStatement)) :
    P _ (counted loc kind part) :=
  StepLaw.bind (StepLaw.log _ _) fun _ =>
    StepLaw.bind (StepLaw.locate loc hp) fun _ => hc

theorem law_times (hs : P _ checkStop) {part : Nat → RunOn β Unit} (hp : ∀ i, P _ (part i))
    (index count : Nat) : P _ (times part index count) := by
  induction count generalizing index with
  | zero => exact StepLaw.pure ()
  | succ count ih =>
    exact StepLaw.bind hs fun _ => StepLaw.bind (hp index) fun _ => ih (index + 1)

end Parts

section Quiet

variable [QuietLaw P]

theorem law_strayStatement (tree : Json) : P _ (strayStatement tree) := by
  unfold strayStatement
  split
  · exact law_counted _ _ (PartLaw.fail _) QuietLaw.count
  · exact PartLaw.fail _

theorem law_strayBody (tree : Json) : P _ (strayBody tree) := by
  unfold strayBody
  split
  · exact StepLaw.pure ()
  · exact StepLaw.bind QuietLaw.checkStop fun _ => law_strayStatement _
  · exact PartLaw.fail _

theorem law_conclude (loc : Location) (result : CommandResult) : P _ (conclude loc result) := by
  refine StepLaw.bind (QuietLaw.last result) fun _ => ?_
  split
  · exact StepLaw.log _ _
  · exact StepLaw.bind (StepLaw.log _ _) fun _ => PartLaw.fail _

end Quiet

variable [Port β]

section Readings

variable [StepLaw P] (read : ∀ panel, P _ (Port.call (.read panel)))
include read

theorem law_readGauges_of : P _ readGauges := by
  refine StepLaw.bind (read _) fun _ => StepLaw.bind (read _) fun _ => ?_
  refine StepLaw.bind (read _) fun _ => StepLaw.bind (read _) fun _ => ?_
  refine StepLaw.bind (read _) fun _ => StepLaw.bind (read _) fun _ => ?_
  exact StepLaw.bind (read _) fun _ => StepLaw.pure _

/-- What obeys the laws for readings holds of the readings at the start of a run. -/
theorem law_refresh_of
    (hu : ∀ s now, P _ (changeContext fun c => (c.update s now).mapError .fault)) :
    P _ refresh := by
  have update : ∀ snapshot, P _ (do
      let now := (← get).now
      changeContext fun c => (c.update snapshot now).mapError .fault) := by
    intro snapshot
    refine StepLaw.consult (fun m m' _ ht => ?_) fun m => hu snapshot m.now
    rw [Machine.now, ht]
    rfl
  refine StepLaw.bind (StepLaw.attempt (law_readGauges_of read)) fun r => ?_
  cases r with
  | ok s => exact update (some s)
  | error t => exact StepLaw.bind (StepLaw.log _ _) fun _ => update none

end Readings

section Readings

variable [PortLaw P]

theorem law_readGauges : P _ readGauges := law_readGauges_of fun _ => PortLaw.call _

theorem law_refresh
    (hu : ∀ s now, P _ (changeContext fun c => (c.update s now).mapError .fault)) :
    P _ refresh := law_refresh_of (fun _ => PortLaw.call _) hu

end Readings

section Quiet

variable [QuietLaw P]

theorem law_strayChosen (tree : Json) : P _ (chosen (.misfit tree)) := by
  unfold chosen
  split
  · next h => cases h
  · exact StepLaw.pure ()
  · next h =>
    cases h
    exact law_strayBody tree

variable {N : Label → Prop}

theorem law_declare (hN : NameLaw N P) (loc : Location) {name : Label} (h : N name) (init : Expr) :
    P _ (statement (.declare loc name init)) :=
  law_counted loc _ (StepLaw.bind (law_evaluate init) fun v => hN.declare name v loc h)
    QuietLaw.count

theorem law_assign (hN : NameLaw N P) (loc : Location) {name : Label} (h : N name) (value : Expr) :
    P _ (statement (.assign loc name value)) :=
  law_counted loc _ (StepLaw.bind (law_evaluate value) fun v => hN.assign name v h)
    QuietLaw.count

theorem law_evaluation (loc : Location) (e : Expr) : P _ (statement (.evaluate loc e)) :=
  law_counted loc _ (StepLaw.bind (law_evaluate e) fun _ => StepLaw.pure ()) QuietLaw.count

end Quiet

section Blocks

variable [BlockLaw P]

theorem law_commandStatement (loc : Location) (c : Command) :
    P _ (commandStatement loc c) :=
  StepLaw.bind (law_command c) fun result => law_conclude loc result

variable {N : Label → Prop}

mutual

/-- What obeys the laws for some names only holds of every statement that mentions no others. -/
theorem law_statement_of (hN : NameLaw N P) : (s : Stmt) → (∀ n ∈ s.labels, N n) → P _ (statement s)
  | .declare loc name init, h => law_declare hN loc (h name List.mem_cons_self) init
  | .assign loc name value, h => law_assign hN loc (h name List.mem_cons_self) value
  | .branch loc condition yes no, h => by
    have hyes := law_chosen_of hN yes fun n hn => h n (by cases no <;> simp [Stmt.labels, hn])
    have hno := law_otherwise_of hN no fun body hb n hn => h n (by
      cases hb
      simp [Stmt.labels, hn])
    refine law_counted loc _ (StepLaw.bind (law_evaluate condition) fun v => ?_)
      QuietLaw.count
    cases v.truthy with
    | true => exact QuietLaw.inScope hyes
    | false => exact QuietLaw.inScope hno
  | .loop loc count body, h => by
    have hbody := law_block_of hN body fun n hn => h n (by simp [Stmt.labels, hn])
    refine law_counted loc _ (StepLaw.bind (law_evaluate count) fun v => ?_)
      QuietLaw.count
    exact StepLaw.bind (law_lift _) fun n =>
      law_times QuietLaw.checkStop (fun i => QuietLaw.iteration i hbody) 0 n
  | .command loc c, _ => law_counted loc _ (law_commandStatement loc c) QuietLaw.count
  | .evaluate loc e, _ => law_evaluation loc e
  | .misfit tree, _ => law_strayStatement tree

theorem law_block_of (hN : NameLaw N P) : (b : Body) → (∀ n ∈ b.labels, N n) → P _ (block b)
  | .statements list, h => law_statements_of hN list h
  | .misfit tree, _ => law_strayBody tree

theorem law_chosen_of (hN : NameLaw N P) : (b : Body) → (∀ n ∈ b.labels, N n) → P _ (chosen b)
  | .statements list, h => law_statements_of hN list h
  | .misfit tree, _ => law_strayChosen tree

theorem law_otherwise_of (hN : NameLaw N P) :
    (b : Option Body) → (∀ body ∈ b, ∀ n ∈ body.labels, N n) → P _ (otherwise b)
  | some body, h => law_chosen_of hN body (h body rfl)
  | none, _ => StepLaw.pure ()

theorem law_statements_of (hN : NameLaw N P) :
    (list : List Stmt) → (∀ n ∈ Stmt.labelsOf list, N n) → P _ (statements list)
  | [], _ => StepLaw.pure ()
  | s :: rest, h =>
    StepLaw.bind QuietLaw.checkStop fun _ =>
      StepLaw.bind (law_statement_of hN s fun n hn => h n (List.mem_append_left _ hn)) fun _ =>
        law_statements_of hN rest fun n hn => h n (List.mem_append_right _ hn)

end

end Blocks

section Statements

variable [StatementLaw P]

theorem law_iteration {body : RunOn β Unit} (h : P _ body) (index : Nat) :
    P _ (iteration body index) := QuietLaw.iteration index h

theorem law_anyName : NameLaw (fun _ => True) P where
  declare name v loc _ := StatementLaw.declare name v loc
  assign name v _ := StatementLaw.assign name v

theorem law_statement (s : Stmt) : P _ (statement s) :=
  law_statement_of law_anyName s fun _ _ => trivial

theorem law_block (b : Body) : P _ (block b) :=
  law_block_of law_anyName b fun _ _ => trivial

theorem law_chosen (b : Body) : P _ (chosen b) :=
  law_chosen_of law_anyName b fun _ _ => trivial

theorem law_otherwise (b : Option Body) : P _ (otherwise b) :=
  law_otherwise_of law_anyName b fun _ _ _ _ => trivial

theorem law_program
    (hu : ∀ s now, P _ (changeContext fun c => (c.update s now).mapError .fault))
    (b : Body) : P _ (program b) :=
  StepLaw.bind (law_refresh hu) fun _ => law_block b

end Statements

end AgentScript.Run

import AgentScript.Proofs.Machine.Laps
import AgentScript.Proofs.Machine.Mention

/-! What happens in a run, in order. The chronicle follows the syntax of the program, and what it
reports at each place is what the parts of the run come to there. -/
namespace AgentScript

/-- What happens in a run: a statement begins or comes to its end, a variable is declared, an
iteration of a loop begins, or a command has a result. -/
inductive Happening
  | begun (s : Stmt)
  | finished (s : Stmt)
  | declared
  | iteration (index : Nat)
  | result (r : CommandResult)

namespace Happening

def isBegun : Happening → Bool
  | begun _ => true
  | _ => false

def isFinished : Happening → Bool
  | finished _ => true
  | _ => false

def isDeclared : Happening → Bool
  | declared => true
  | _ => false

def isIteration : Happening → Bool
  | iteration _ => true
  | _ => false

def result? : Happening → Option CommandResult
  | result r => some r
  | _ => none

/-- Which statements are in progress before and after, innermost first. Only the innermost of them
comes to its end. -/
inductive Turns : List Stmt → Happening → List Stmt → Prop
  | begun (s : Stmt) (pending : List Stmt) : Turns pending (.begun s) (s :: pending)
  | finished (s : Stmt) (pending : List Stmt) : Turns (s :: pending) (.finished s) pending
  | declared (pending : List Stmt) : Turns pending .declared pending
  | iteration (index : Nat) (pending : List Stmt) : Turns pending (.iteration index) pending
  | result (r : CommandResult) (pending : List Stmt) : Turns pending (.result r) pending

end Happening

abbrev Chronicle : Type := List Happening

/-- Which statements are in progress before and after all that happens. -/
inductive Bracketed : List Stmt → Chronicle → List Stmt → Prop
  | nothing (pending : List Stmt) : Bracketed pending [] pending
  | next {before between after : List Stmt} {first : Happening} {hs : Chronicle}
    (turn : first.Turns before between) (rest : Bracketed between hs after) :
    Bracketed before (first :: hs) after

namespace Chronicle

def begun (hs : Chronicle) : Nat := hs.countP Happening.isBegun

def finished (hs : Chronicle) : Nat := hs.countP Happening.isFinished

def declared (hs : Chronicle) : Nat := hs.countP Happening.isDeclared

def iterations (hs : Chronicle) : Nat := hs.countP Happening.isIteration

def results (hs : Chronicle) : List CommandResult := hs.filterMap Happening.result?

def growth (hs : Chronicle) : Growth where
  statements := hs.finished
  commands := hs.results.length
  definitions := hs.declared + hs.iterations

theorem results_append (hs hs' : Chronicle) : results (hs ++ hs') = hs.results ++ hs'.results :=
  List.filterMap_append

theorem between_append {hs hs' : Chronicle} {s t u : Stats} (h : hs.growth.Between s t)
    (h' : hs'.growth.Between t u) : (growth (hs ++ hs')).Between s u := by
  have hg : growth (hs ++ hs') = ⟨hs.growth.statements + hs'.growth.statements,
      hs.growth.commands + hs'.growth.commands, hs.growth.definitions + hs'.growth.definitions,
      hs.growth.errors ++ hs'.growth.errors⟩ := by
    simp only [growth, finished, declared, iterations, results_append, List.countP_append,
      List.length_append, List.append_nil, Growth.mk.injEq, true_and, and_true]
    omega
  rw [hg]
  exact h.trans h'

end Chronicle

namespace Bracketed

variable {before between after : List Stmt} {hs hs' : Chronicle}

theorem append (h : Bracketed before hs between) (h' : Bracketed between hs' after) :
    Bracketed before (hs ++ hs') after := by
  induction h with
  | nothing => exact h'
  | next turn _ ih => exact .next turn (ih h')

/-- The same, while other statements are in progress around them. -/
theorem within (h : Bracketed before hs after) (outer : List Stmt) :
    Bracketed (before ++ outer) hs (after ++ outer) := by
  induction h with
  | nothing => exact .nothing _
  | next turn _ ih =>
    refine .next ?_ ih
    cases turn <;> constructor

/-- What has begun has come to its end or is in progress. -/
theorem balance (h : Bracketed before hs after) :
    before.length + hs.begun = hs.finished + after.length := by
  induction h with
  | nothing => simp [Chronicle.begun, Chronicle.finished]
  | next turn _ ih =>
    cases turn <;>
      simp only [Chronicle.begun, Chronicle.finished, List.countP_cons, List.length_cons,
        Happening.isBegun, Happening.isFinished, if_true, Bool.false_eq_true, if_false] at ih ⊢ <;>
      omega

end Bracketed

variable {β : Type}

namespace Chronicle

open Run

/-- What happens after a part that has come to its end. -/
def onward {α : Type} (r : EStateM.Result Halt (Machine β) α) (next : α → Machine β → Chronicle) :
    Chronicle :=
  match r with
  | .ok a m => next a m
  | .error _ _ => []

def ofLaps (body : RunOn β Unit) (inside : Machine β → Chronicle) (index : Nat) :
    Nat → Machine β → Chronicle
  | 0, _ => []
  | n + 1, m =>
    if m.stopRequested then []
    else .iteration index :: inside (m.iterating index) ++
      onward (iteration body index m) fun _ => ofLaps body inside (index + 1) n

def ofStrayStatement (tree : Json) (m : Machine β) : Chronicle :=
  .begun (.misfit tree) :: onward (strayStatement tree m) fun _ _ => [.finished (.misfit tree)]

def ofStrayBody (tree : Json) (m : Machine β) : Chronicle :=
  match tree with
  | .str "" => []
  | .str s => if m.stopRequested then [] else ofStrayStatement (.str s) m
  | _ => []

def ofDeclaration (loc : Location) (name : Label) (init : Expr) (m : Machine β) : Chronicle :=
  onward (evaluate init m) fun v m =>
    onward (changeContext (·.declare name v loc) m) fun _ _ => [.declared]

variable [Port β]

def around (s : Stmt) (loc : Location) (kind : String) (inside : Machine β → Chronicle)
    (m : Machine β) : Chronicle :=
  .begun s :: inside (m.note loc kind) ++ onward (statement s m) fun _ _ => [.finished s]

def ofCommand (c : Command) (m : Machine β) : Chronicle :=
  onward (command c m) fun r _ => [.result r]

mutual

def ofStatement : Stmt → Machine β → Chronicle
  | .declare loc name init =>
    around (.declare loc name init) loc "VariableDeclaration" (ofDeclaration loc name init)
  | .assign loc name value => around (.assign loc name value) loc "Assignment" fun _ => []
  | .branch loc condition yes no =>
    around (.branch loc condition yes no) loc "IfStatement" fun m =>
      onward (evaluate condition m) fun v m =>
        (if v.truthy then ofChosen yes else ofOtherwise no)
          { m with context := m.context.enter }
  | .loop loc count body =>
    around (.loop loc count body) loc "RepeatStatement" fun m =>
      onward (evaluate count m) fun v m =>
        onward (lift ((repetitions v).mapError Cause.trouble) m) fun n =>
          ofLaps (block body) (ofBlock body) 0 n
  | .command loc c => around (.command loc c) loc "CommandStatement" (ofCommand c)
  | .evaluate loc e => around (.evaluate loc e) loc "ExpressionStatement" fun _ => []
  | .misfit tree => ofStrayStatement tree

def ofBlock : Body → Machine β → Chronicle
  | .statements list => ofStatements list
  | .misfit tree => ofStrayBody tree

def ofChosen : Body → Machine β → Chronicle
  | .statements list => ofStatements list
  | .misfit .null => fun _ => []
  | .misfit tree => ofStrayBody tree

def ofOtherwise : Option Body → Machine β → Chronicle
  | some body => ofChosen body
  | none => fun _ => []

def ofStatements : List Stmt → Machine β → Chronicle
  | [], _ => []
  | s :: rest, m =>
    if m.stopRequested then []
    else ofStatement s m ++ onward (statement s m) fun _ => ofStatements rest

end

end Chronicle

def Machine.chronicle [Port β] (m : Machine β) (p : Program) : Chronicle :=
  match m.begin, p.body, p.size with
  | .ok m, .ok body, .ok n =>
    Chronicle.onward
      (Run.refresh (m.log .info ("Executing program with " ++ toString n ++ " statements")))
      fun _ => Chronicle.ofBlock body
  | _, _, _ => []

end AgentScript

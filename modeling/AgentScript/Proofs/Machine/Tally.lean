import AgentScript.Proofs.Machine.Chronicle
import AgentScript.Proofs.Machine.Lawful

/-! The figures of a run are counts of what happened in it. -/
namespace AgentScript

variable {α β : Type}

def Machine.Level (m m' : Machine β) : Prop :=
  m'.context.stats = m.context.stats ∧ m'.last = m.last

/-- A bot that has no hand in the figures of a run, nor in the result that it keeps. -/
class LevelPort (β : Type) [Port β] : Prop where
  call : ∀ {α : Type} (operation : Operation α),
    Run.Keeps Machine.Level (Port.call operation : RunOn β α)

namespace Run

open Machine (Level)

instance : AllowsParts (Level : Machine β → Machine β → Prop) where
  refl _ := ⟨rfl, rfl⟩
  trans h h' := ⟨h'.1.trans h.1, h'.2.trans h.2⟩
  output _ _ := ⟨rfl, rfl⟩
  wait m time := by
    obtain ⟨flag, probes, later, he, -⟩ := m.waitUntil_eq time
    rw [Level, he]
    exact ⟨rfl, rfl⟩

instance : AllowsBot Level where
  record m call := by
    obtain ⟨flag, at?, he, -⟩ := m.record_eq call
    rw [Level, he]
    exact ⟨rfl, rfl⟩
  effect _ _ _ := ⟨rfl, rfl⟩

instance : LevelPort Bot where
  call operation := law_operate (P := fun _ => Keeps Level) operation

theorem level_evaluate (e : Expr) : Keeps Level (evaluate e : RunOn β Value) :=
  law_evaluate (P := fun _ => Keeps Level) e

instance [Port β] [LevelPort β] : AllowsCommands (Level : Machine β → Machine β → Prop) where
  call := LevelPort.call

end Run

def Machine.left (r : EStateM.Result Halt (Machine β) α) : Machine β :=
  match r with
  | .ok _ m => m
  | .error _ m => m

/-- How the results of commands go with the end of a part: none of them is a failure, or the last one
alone is, and ends the part with its message. -/
inductive Outlook : List CommandResult → EStateM.Result Halt (Machine β) Unit → Prop
  | clean {results : List CommandResult} {r : EStateM.Result Halt (Machine β) Unit}
    (h : ∀ x ∈ results, x.success = true) : Outlook results r
  | failed {before : List CommandResult} {x : CommandResult} {e : ScriptError} {m : Machine β}
    (h : ∀ y ∈ before, y.success = true) (hx : x.success = false)
    (he : e.cause = .commandFailed x.message) :
    Outlook (before ++ [x]) (.error (.trouble (.error e)) m)

namespace Outlook

variable {results results' : List CommandResult} {r : EStateM.Result Halt (Machine β) Unit}

theorem of_ok {m : Machine β} (h : Outlook results (.ok () m)) :
    ∀ x ∈ results, x.success = true := by
  cases h with
  | clean h => exact h

theorem append (h : ∀ x ∈ results, x.success = true) (h' : Outlook results' r) :
    Outlook (results ++ results') r := by
  cases h' with
  | clean h' => exact .clean (List.forall_mem_append.mpr ⟨h, h'⟩)
  | failed h' hx he =>
    rw [← List.append_assoc]
    exact .failed (List.forall_mem_append.mpr ⟨h, h'⟩) hx he

theorem elsewhere {halt : Halt} {m : Machine β} (h : Outlook results (.error halt m))
    (m' : Machine β) : Outlook results (.error halt m') := by
  cases h with
  | clean h => exact .clean h
  | failed h hx he => exact .failed h hx he

theorem locate {t : Trouble} {m : Machine β} (h : Outlook results (.error (.trouble t) m))
    (loc : Location) : Outlook results (.error (.trouble (t.locate loc)) m) := by
  cases h with
  | clean h => exact .clean h
  | failed h hx he => exact .failed h hx ((ScriptError.cause_locate _ loc).trans he)

end Outlook

/-- From where a part begins to what it comes to, the figures go with what happened, the last result
is the last that there was, and nothing is in progress once it has come to its end. -/
structure Tally (m : Machine β) (hs : Chronicle) (r : EStateM.Result Halt (Machine β) Unit) :
    Prop where
  figures : hs.growth.Between m.context.stats (Machine.left r).context.stats
  last : (Machine.left r).last = hs.results.getLast?.or m.last
  bracketed : ∃ pending, Bracketed [] hs pending ∧ ∀ m', r = .ok () m' → pending = []
  outlook : Outlook hs.results r

namespace Tally

open Run Chronicle
open Machine (Level)

variable {m m' m'' : Machine β} {hs hs' : Chronicle} {r : EStateM.Result Halt (Machine β) Unit}
  {halt : Halt} {loc : Location}

/-- A part that changes no figure, and in which nothing happens. -/
theorem quiet {r : EStateM.Result Halt (Machine β) Unit} (h : m.Level (Machine.left r)) :
    Tally m [] r where
  figures := by
    rw [h.1]
    exact ⟨rfl, rfl, rfl, (List.append_nil _).symm⟩
  last := h.2
  bracketed := ⟨[], .nothing _, fun _ _ => rfl⟩
  outlook := .clean fun _ hx => nomatch hx

theorem quiet_of_keeps {part : RunOn β Unit} (h : Keeps Level part) (m : Machine β) :
    Tally m [] (part m) := quiet (h m)

theorem of_level (h : Tally m' hs r) (hl : m.Level m') : Tally m hs r where
  figures := hl.1 ▸ h.figures
  last := hl.2 ▸ h.last
  bracketed := h.bracketed
  outlook := h.outlook

theorem ok_level (h : Tally m hs (.ok () m')) (hl : m'.Level m'') : Tally m hs (.ok () m'') where
  figures := by
    rw [show (Machine.left (.ok () m'')).context.stats = _ from hl.1]
    exact h.figures
  last := hl.2.trans h.last
  bracketed := by
    obtain ⟨pending, hu, hnone⟩ := h.bracketed
    exact ⟨pending, hu, fun _ _ => hnone m' rfl⟩
  outlook := .clean h.outlook.of_ok

theorem error_level (h : Tally m hs (.error halt m')) (hl : m'.Level m'') :
    Tally m hs (.error halt m'') where
  figures := by
    rw [show (Machine.left (.error halt m'')).context.stats = _ from hl.1]
    exact h.figures
  last := hl.2.trans h.last
  bracketed := by
    obtain ⟨pending, hu, -⟩ := h.bracketed
    exact ⟨pending, hu, fun _ he => nomatch he⟩
  outlook := h.outlook.elsewhere m''

/-- What happens after a part that has come to its end. -/
theorem append (h : Tally m hs (.ok () m')) (h' : Tally m' hs' r) : Tally m (hs ++ hs') r where
  figures := between_append h.figures h'.figures
  last := by
    rw [h'.last, results_append, List.getLast?_append, Option.or_assoc]
    exact congrArg _ h.last
  bracketed := by
    obtain ⟨pending, hu, hnone⟩ := h.bracketed
    obtain ⟨pending', hu', hnone'⟩ := h'.bracketed
    obtain rfl := hnone m' rfl
    exact ⟨pending', hu.append hu', hnone'⟩
  outlook := by
    rw [results_append]
    exact .append h.outlook.of_ok h'.outlook

/-- One part after the other. -/
theorem bind {part : RunOn β Unit} {f : Unit → RunOn β Unit} {next : Unit → Machine β → Chronicle}
    (h : Tally m hs (part m)) (hf : ∀ m', part m = .ok () m' → Tally m' (next () m') (f () m')) :
    Tally m (hs ++ onward (part m) next) ((part >>= f) m) := by
  cases hp : part m with
  | error halt m' =>
    rw [bind_of_error hp, onward, List.append_nil]
    rwa [hp] at h
  | ok u m' =>
    rw [bind_of_ok hp, onward]
    rw [hp] at h
    exact h.append (hf m' hp)

/-- A part in which nothing happens, and then another. -/
theorem after_quiet {part : RunOn β α} {f : α → RunOn β Unit} {next : α → Machine β → Chronicle}
    (h : Keeps Level part) (hf : ∀ a m', Tally m' (next a m') (f a m')) :
    Tally m (onward (part m) next) ((part >>= f) m) := by
  have hm := h m
  cases hp : part m with
  | error halt m' =>
    rw [after_of_error hp] at hm
    rw [bind_of_error hp, onward]
    exact quiet hm
  | ok a m' =>
    rw [after_of_ok hp] at hm
    rw [bind_of_ok hp, onward]
    exact (hf a m').of_level hm

theorem inScope {part : RunOn β Unit}
    (h : Tally { m with context := m.context.enter } hs
      (part { m with context := m.context.enter })) : Tally m hs (inScope part m) := by
  have h : Tally m hs (part { m with context := m.context.enter }) := h.of_level ⟨rfl, rfl⟩
  unfold Run.inScope
  split
  · next hp =>
    rw [hp] at h
    exact h.ok_level ⟨rfl, rfl⟩
  · next hp =>
    rw [hp] at h
    exact h.error_level ⟨rfl, rfl⟩

/-- An iteration begins with its index, which is one definition. -/
theorem iteration {body : RunOn β Unit} {k : Nat}
    (h : Tally (m.iterating k) hs (body (m.iterating k))) :
    Tally m (.iteration k :: hs) (Run.iteration body k m) := by
  have hindex : Tally m [.iteration k] (.ok () (m.iterating k)) :=
    ⟨Growth.between_definition _, rfl, ⟨[], .next (.iteration k []) (.nothing _), fun _ _ => rfl⟩,
      .clean fun _ hx => nomatch hx⟩
  have h := hindex.append h
  cases hb : body (m.iterating k) with
  | ok u m' =>
    rw [iteration_ok hb]
    rw [hb] at h
    exact h.ok_level ⟨rfl, rfl⟩
  | error halt m' =>
    rw [iteration_halts hb]
    rw [hb] at h
    exact h.error_level ⟨rfl, rfl⟩

theorem laps {body : RunOn β Unit} {inside : Machine β → Chronicle}
    (h : ∀ m, Tally m (inside m) (body m)) (i n : Nat) (m : Machine β) :
    Tally m (ofLaps body inside i n m) (times (Run.iteration body) i n m) := by
  induction n generalizing i m with
  | zero => exact quiet ⟨rfl, rfl⟩
  | succ n ih =>
    cases hs : m.stopRequested with
    | true =>
      rw [times_stopped hs, ofLaps, if_pos hs]
      exact quiet ⟨rfl, rfl⟩
    | false =>
      rw [times_succ hs, ofLaps, hs, if_neg Bool.false_ne_true]
      exact (h (m.iterating i)).iteration.bind fun m' _ => ih (i + 1) m'

/-- A statement begins, and it comes to its end with its part. -/
theorem closed (s : Stmt) (h : Tally m hs r) :
    Tally m (.begun s :: hs ++ onward (closed loc r) fun _ _ => [.finished s])
      (Run.closed loc r) := by
  have hbegun : (growth [.begun s]).Between m.context.stats m.context.stats :=
    ⟨rfl, rfl, rfl, (List.append_nil _).symm⟩
  have hfigures := between_append hbegun h.figures
  obtain ⟨pending, hu, hnone⟩ := h.bracketed
  have hu : Bracketed [] (.begun s :: hs) (pending ++ [s]) :=
    .next (.begun s []) (hu.within [s])
  cases r with
  | ok u m' =>
    obtain rfl := hnone m' rfl
    have hresults : results (.begun s :: hs ++ [.finished s]) = hs.results := by
      rw [results_append]
      exact List.append_nil _
    have hcount : (growth [.finished s]).Between m'.context.stats
        m'.context.countStatement.stats := Growth.between_statement _
    refine ⟨between_append hfigures hcount, ?_, ⟨[], ?_, fun _ _ => rfl⟩, ?_⟩
    · exact h.last.trans (by rw [← hresults]; rfl)
    · exact hu.append (.next (.finished s []) (.nothing _))
    · exact .clean (hresults ▸ h.outlook.of_ok)
  | error halt m' =>
    rw [show onward (Run.closed loc (.error halt m')) _ = [] by cases halt <;> rfl,
      List.append_nil]
    cases halt with
    | stopped => exact ⟨hfigures, h.last, ⟨_, hu, fun _ he => nomatch he⟩, h.outlook⟩
    | trouble t =>
      exact ⟨hfigures, h.last, ⟨_, hu, fun _ he => nomatch he⟩, h.outlook.locate loc⟩

theorem strayStatement (tree : Json) (m : Machine β) :
    Tally m (ofStrayStatement tree m) (Run.strayStatement tree m) := by
  have hbegun : Bracketed [] [.begun (.misfit tree)] [.misfit tree] :=
    .next (.begun _ _) (.nothing _)
  have failing {m' : Machine β} {halt : Halt} (he : Run.strayStatement tree m = .error halt m')
      (hl : m.Level m') :
      Tally m (ofStrayStatement tree m) (Run.strayStatement tree m) := by
    rw [ofStrayStatement, he]
    exact {
      figures := (quiet (r := .error halt m') hl).figures
      last := hl.2
      bracketed := ⟨_, hbegun, fun _ he => nomatch he⟩
      outlook := .clean fun _ hx => nomatch hx }
  cases hl : tree.nodeLocation? with
  | some loc =>
    have he : Run.strayStatement tree m = counted loc tree.nodeKind
        (fail (Cause.strayStatement tree.nodeKind).trouble) m := by
      rw [Run.strayStatement, hl]
    exact failing (he.trans (counted_error rfl)) ⟨rfl, rfl⟩
  | none =>
    have he : Run.strayStatement tree m = fail (.fault (.noAttribute tree.kindName "line")) m := by
      rw [Run.strayStatement, hl]
    exact failing he ⟨rfl, rfl⟩

theorem checked {part : RunOn β Unit} (h : Tally m hs (part m)) :
    Tally m (if m.stopRequested then [] else hs) ((checkStop >>= fun _ => part) m) := by
  cases hs : m.stopRequested with
  | true =>
    have hc : checkStop m = .error .stopped m := by rw [checkStop_apply, hs, if_pos rfl]
    rw [bind_of_error hc, if_pos rfl]
    exact quiet ⟨rfl, rfl⟩
  | false =>
    have hc : checkStop m = .ok () m := by
      rw [checkStop_apply, hs, if_neg Bool.false_ne_true]
    rw [bind_of_ok hc, if_neg Bool.false_ne_true]
    exact h

theorem strayBody (tree : Json) (m : Machine β) :
    Tally m (ofStrayBody tree m) (Run.strayBody tree m) := by
  unfold Run.strayBody
  split
  · exact quiet ⟨rfl, rfl⟩
  · next s hs =>
    rw [ofStrayBody]
    · exact checked (strayStatement _ m)
    · exact hs
  · next hempty hs =>
    rw [ofStrayBody]
    · exact quiet ⟨rfl, rfl⟩
    · exact hempty
    · exact hs

theorem conclude (result : CommandResult) (m : Machine β) :
    Tally m [.result result] (Run.conclude loc result m) := by
  have hresult (r : EStateM.Result Halt (Machine β) Unit)
      (hl : Machine.Level { m with last := some result, context := m.context.countCommand }
        (Machine.left r)) (ho : Outlook [result] r) : Tally m [.result result] r := {
    figures := by
      rw [hl.1]
      exact Growth.between_command _
    last := hl.2
    bracketed := ⟨[], .next (.result result []) (.nothing _), fun _ _ => rfl⟩
    outlook := ho }
  unfold Run.conclude
  rw [modify_bind]
  cases hs : result.success with
  | true => exact hresult _ ⟨rfl, rfl⟩ (.clean (by simpa using hs))
  | false =>
    have hbefore : ∀ y ∈ ([] : List CommandResult), y.success = true := fun _ hy => nomatch hy
    exact hresult _ ⟨rfl, rfl⟩ (.failed hbefore hs rfl)

theorem declaration (loc : Location) (name : Label) (init : Expr) (m : Machine β) :
    Tally m (ofDeclaration loc name init m)
      ((evaluate init >>= fun v => changeContext (·.declare name v loc)) m) := by
  refine after_quiet (level_evaluate init) fun v m => ?_
  cases hd : m.context.declare name v loc with
  | error t =>
    rw [changeContext_error hd, onward]
    exact quiet ⟨rfl, rfl⟩
  | ok c =>
    rw [changeContext_ok hd, onward]
    obtain ⟨key, -, hd⟩ := bind_eq_ok hd
    have hc := Context.define_stats (mapError_eq_ok hd)
    refine ⟨?_, rfl, ⟨[], .next (.declared []) (.nothing _), fun _ _ => rfl⟩,
      .clean fun _ hx => nomatch hx⟩
    rw [show (Machine.left (.ok () { m with context := c })).context.stats = _ from hc]
    exact Growth.between_definition _

theorem assignment (name : Label) (value : Expr) (m : Machine β) :
    Tally m [] ((evaluate value >>= fun v => changeContext (·.assign name v)) m) := by
  have hkeeps (v : Value) : Keeps Level (changeContext (·.assign name v) : RunOn β Unit) := by
    refine keeps_changeContext fun m c h => ?_
    obtain ⟨key, -, h⟩ := bind_eq_ok h
    split at h
    · exact ⟨Context.set_stats (mapError_eq_ok h), rfl⟩
    · cases h
  exact quiet_of_keeps (keeps_bind (level_evaluate value) hkeeps) m

variable [Port β]

theorem around (s : Stmt) {kind : String} {part : RunOn β Unit} {inside : Machine β → Chronicle}
    (hs : statement s = counted loc kind part) (h : ∀ m, Tally m (inside m) (part m))
    (m : Machine β) : Tally m (Chronicle.around s loc kind inside m) (statement s m) := by
  have hn : m.Level (m.note loc kind) := ⟨rfl, rfl⟩
  unfold Chronicle.around
  rw [hs, counted_apply]
  exact ((h (m.note loc kind)).of_level hn).closed s

variable [LevelPort β]

theorem command (loc : Location) (c : Command) (m : Machine β) :
    Tally m (ofCommand c m) (commandStatement loc c m) :=
  after_quiet (law_command (P := fun _ => Keeps Level) c) fun result m => conclude result m

end Tally

namespace Run

open Chronicle

variable [Port β]

mutual

/-- The figures go with what happens in a statement. -/
theorem tally_statement [LevelPort β] :
    (s : Stmt) → (m : Machine β) → Tally m (ofStatement s m) (statement s m)
  | .declare loc name init => .around _ rfl (.declaration loc name init)
  | .assign loc name value => .around _ rfl (.assignment name value)
  | .branch loc condition yes no => by
    refine .around _ rfl fun m =>
      .after_quiet (level_evaluate condition) fun v m => ?_
    refine .inScope ?_
    cases v.truthy with
    | true => exact tally_chosen yes _
    | false => exact tally_otherwise no _
  | .loop loc count body => by
    refine .around _ rfl fun m =>
      .after_quiet (level_evaluate count) fun v m => ?_
    refine .after_quiet (law_lift (P := fun _ => Keeps Machine.Level) _) fun n m => ?_
    exact .laps (tally_block body) 0 n m
  | .command loc c => .around _ rfl (.command loc c)
  | .evaluate loc e => by
    have hkeeps : Keeps Machine.Level (discard (evaluate e) : RunOn β Unit) :=
      law_map (P := fun _ => Keeps Machine.Level) (fun _ => ()) (level_evaluate e)
    exact .around _ rfl (.quiet_of_keeps hkeeps)
  | .misfit tree => .strayStatement tree

theorem tally_block [LevelPort β] :
    (b : Body) → (m : Machine β) → Tally m (ofBlock b m) (block b m)
  | .statements list => tally_statements list
  | .misfit tree => .strayBody tree

theorem tally_chosen [LevelPort β] :
    (b : Body) → (m : Machine β) → Tally m (ofChosen b m) (chosen b m)
  | .statements list => tally_statements list
  | .misfit tree => by
    intro m
    unfold ofChosen chosen
    cases tree with
    | null => exact .quiet ⟨rfl, rfl⟩
    | _ => exact .strayBody _ m

theorem tally_otherwise [LevelPort β] :
    (b : Option Body) → (m : Machine β) → Tally m (ofOtherwise b m) (otherwise b m)
  | some body => tally_chosen body
  | none => fun _ => .quiet ⟨rfl, rfl⟩

theorem tally_statements [LevelPort β] :
    (list : List Stmt) → (m : Machine β) → Tally m (ofStatements list m) (statements list m)
  | [], _ => .quiet ⟨rfl, rfl⟩
  | s :: rest, m => .checked ((tally_statement s m).bind fun m _ => tally_statements rest m)

end

/-- Nothing happens while the gauges are read. -/
theorem level_refresh [LevelPort β] : Keeps Machine.Level (refresh : RunOn β Unit) := by
  refine law_refresh (P := fun _ => Keeps Machine.Level) fun s now => ?_
  exact keeps_changeContext fun m c h => ⟨(Context.update_locals (mapError_eq_ok h)).2, rfl⟩

theorem tally_program [LevelPort β] (b : Body) (m : Machine β) :
    Tally m (onward (refresh m) fun _ => ofBlock b) (program b m) :=
  .after_quiet level_refresh fun _ m => tally_block b m

end Run

/-- A message says at its end what its cause was. -/
theorem ScriptError.text_ends {e : ScriptError} {text : String}
    (h : e.cause = .commandFailed text) : ∃ head, e.text = head ++ "Command failed: " ++ text := by
  have hm : e.cause.message = "Command failed: " ++ text := congrArg Cause.message h
  have hk : e.cause.kind.heading? = some "Execution error" := by
    rw [h]
    rfl
  unfold ScriptError.text
  rw [hk, hm]
  cases e.line with
  | none => exact ⟨_, String.append_assoc.symm⟩
  | some line =>
    dsimp only
    split
    · exact ⟨_, String.append_assoc.symm⟩
    · exact ⟨_, String.append_assoc.symm⟩

namespace Machine

/-- How a run goes with what happened in it. -/
structure Accounts (m m' : Machine β) (hs : Chronicle) (outcome : Except Fault Outcome)
    (pending : List Stmt) : Prop where
  /-- All statements that had begun and not come to their end stood around one another. -/
  bracketed : Bracketed [] hs pending
  whole : outcome = .ok .success → pending = []
  statements : m'.context.stats.statements = m.context.stats.statements + hs.finished
  balance : hs.begun = hs.finished + pending.length
  commands : m'.context.stats.commands = m.context.stats.commands + hs.results.length
  definitions : m'.context.stats.definitions =
    m.context.stats.definitions + (hs.declared + hs.iterations)
  last : m'.last = hs.results.getLast?.or m.last
  /-- No command failed, or the last one alone did, which is then what the run ended with. -/
  failure : (∀ x ∈ hs.results, x.success = true) ∨
    ∃ before x head, hs.results = before ++ [x] ∧ (∀ y ∈ before, y.success = true) ∧
      x.success = false ∧ outcome = .ok (.error (head ++ "Command failed: " ++ x.message))

structure Even (m m' : Machine β) : Prop where
  statements : m'.context.stats.statements = m.context.stats.statements
  commands : m'.context.stats.commands = m.context.stats.commands
  definitions : m'.context.stats.definitions = m.context.stats.definitions
  last : m'.last = m.last

variable {m m₁ m' : Machine β} {hs : Chronicle} {outcome : Except Fault Outcome}
  {pending : List Stmt}

theorem even_begin (h : m.begin = .ok m') : m.Even m' := by
  rw [begin_eq h]
  exact ⟨rfl, rfl, rfl, rfl⟩

theorem Accounts.of_even (h : m₁.Accounts m' hs outcome pending) (he : m.Even m₁) :
    m.Accounts m' hs outcome pending where
  bracketed := h.bracketed
  whole := h.whole
  statements := he.statements ▸ h.statements
  balance := h.balance
  commands := he.commands ▸ h.commands
  definitions := he.definitions ▸ h.definitions
  last := he.last ▸ h.last
  failure := h.failure

theorem Accounts.of_nothing {f : Fault} (he : m.Even m') : m.Accounts m' [] (.error f) [] where
  bracketed := .nothing _
  whole _ := rfl
  statements := he.statements
  balance := rfl
  commands := he.commands
  definitions := he.definitions
  last := he.last
  failure := .inl fun _ hx => nomatch hx

variable [Port β]

theorem even_ended (r : EStateM.Result Halt (Machine β) Unit) :
    (left r).Even (ended r).2 := by
  cases r with
  | ok u m' => exact ⟨rfl, rfl, rfl, rfl⟩
  | error halt m' =>
    cases halt with
    | stopped => exact ⟨rfl, rfl, rfl, rfl⟩
    | trouble t => cases t <;> exact ⟨rfl, rfl, rfl, rfl⟩

/-- The figures of a block that is run to its end, an error or a stop. -/
theorem accounts_of_tally {r : EStateM.Result Halt (Machine β) Unit}
    (h : Tally m hs r) : ∃ pending, m.Accounts (ended r).2 hs (ended r).1 pending := by
  have he := even_ended r
  obtain ⟨pending, hu, hnone⟩ := h.bracketed
  refine ⟨pending, {
    bracketed := hu
    whole := ?_
    statements := he.statements.trans h.figures.statements
    balance := by simpa using hu.balance
    commands := he.commands.trans h.figures.commands
    definitions := he.definitions.trans h.figures.definitions
    last := he.last.trans h.last
    failure := ?_ }⟩
  · intro hsuccess
    cases r with
    | ok u m' => exact hnone m' rfl
    | error halt m' =>
      cases halt with
      | stopped => cases hsuccess
      | trouble t => cases t <;> cases hsuccess
  · have ho := h.outlook
    generalize hs.results = results at ho
    cases ho with
    | clean hgood => exact .inl hgood
    | @failed before x e m' hgood hx hcause =>
      obtain ⟨head, ht⟩ := ScriptError.text_ends hcause
      exact .inr ⟨before, x, head, rfl, hgood, hx, congrArg (Except.ok ∘ Outcome.error) ht⟩

/-- The figures of a run are counts of what happened in it, however it ends. -/
theorem execute_accounts [LevelPort β] (m : Machine β) (p : Program) :
    ∃ pending, m.Accounts (m.execute p).2 (m.chronicle p) (m.execute p).1 pending := by
  unfold execute chronicle
  cases hb : m.begin with
  | error f => exact ⟨[], .of_nothing ⟨rfl, rfl, rfl, rfl⟩⟩
  | ok m₁ =>
    have he := even_begin hb
    cases hbody : p.body with
    | error f => exact ⟨[], .of_nothing he⟩
    | ok body =>
      cases hsize : p.size with
      | error f => exact ⟨[], .of_nothing he⟩
      | ok n =>
        obtain ⟨pending, h⟩ := accounts_of_tally (Run.tally_program body
          (m₁.log .info ("Executing program with " ++ toString n ++ " statements")))
        exact ⟨pending, h.of_even ⟨he.statements, he.commands, he.definitions, he.last⟩⟩

/-- A loop is broken off in the first of its two iterations, by an attack that fails. -/
theorem execute_accounts_failure :
    let m : Machine := .fresh {} {} 0
    let p : Program := .ofStatements [
      .declare ⟨1, 1⟩ (.word "x") (.boolean ⟨1, 9⟩ true),
      .loop ⟨2, 1⟩ (.number ⟨2, 8⟩ 2) (.statements [
        .command ⟨3, 3⟩ (.attack ⟨3, 3⟩ (.string ⟨3, 10⟩ "zombie"))])]
    (m.execute p).2.context.stats.statements = 1 ∧ (m.execute p).2.context.stats.commands = 1 ∧
      (m.execute p).2.context.stats.definitions = 2 ∧
      ∃ pending : List Stmt, Bracketed [] (m.chronicle p) pending ∧ pending.length = 2 := by
  intro m p
  obtain ⟨pending, h⟩ := execute_accounts m p
  have hbegun : (m.chronicle p).begun = 3 := by decide +kernel
  have hfinished : (m.chronicle p).finished = 1 := by decide +kernel
  have hresults : (m.chronicle p).results.length = 1 := by decide +kernel
  have hdefined : (m.chronicle p).declared + (m.chronicle p).iterations = 2 := by decide +kernel
  have hbalance := h.balance
  rw [hbegun, hfinished] at hbalance
  refine ⟨?_, ?_, ?_, pending, h.bracketed, by omega⟩
  · rw [h.statements, hfinished]
    rfl
  · rw [h.commands, hresults]
    rfl
  · rw [h.definitions, hdefined]
    rfl

end Machine

end AgentScript

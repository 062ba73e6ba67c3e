import AgentScript.Proofs.Machine.Outcome

/-! What goes wrong in proper statements is an error of the script, whatever the bot refuses: faults
of the host come from misfits and from readings that have no value. -/
namespace AgentScript

variable {β : Type} {P : Location → Prop}

namespace Run

/-- A part whose trouble is an error of the script. -/
def Scripted {α : Type} (part : RunOn β α) : Prop :=
  ∀ ⦃m m' : Machine β⦄ ⦃t : Trouble⦄, part m = .error (.trouble t) m' → ∃ e, t = .error e

theorem scripted_counted {part : RunOn β Unit} (hp : Scripted part) (loc : Location)
    (kind : String) : Scripted (counted loc kind part) := by
  intro m m' t h
  obtain ⟨t', m'', he, rfl⟩ := counted_inv h
  obtain ⟨e, rfl⟩ := hp he
  exact ⟨e.locate loc, rfl⟩

theorem scripted_inScope {part : RunOn β Unit} (hp : Scripted part) : Scripted (inScope part) := by
  intro m m' t h
  obtain ⟨m'', he⟩ := inScope_inv h
  exact hp he

theorem scripted_times {part : Nat → RunOn β Unit} (hp : ∀ i, Scripted (part i)) (i n : Nat) :
    Scripted (times part i n) := by
  intro m m' t h
  obtain ⟨k, m₁, -, -, -, he⟩ := times_inv h
  exact hp (i + k) he

theorem scripted_iteration {body : RunOn β Unit} (hp : Scripted body) (i : Nat) :
    Scripted (iteration body i) := by
  intro m m' t h
  obtain ⟨c, m'', -, he⟩ := iteration_inv h
  exact hp he

/-- A statement that evaluates an expression first. -/
theorem scripted_evaluate {α : Type} {e : Expr} (he : e.Over P) {f : Value → RunOn β α}
    (hf : ∀ v, Scripted (f v)) : Scripted (evaluate e >>= f) := by
  intro m m' t h
  cases hv : e.eval m.context with
  | error t =>
    rw [bind_of_error (evaluate_error hv)] at h
    cases h
    obtain ⟨error, -, rfl, -⟩ := Expr.fails_of_eval he hv
    exact ⟨error, rfl⟩
  | ok v =>
    rw [bind_of_ok (evaluate_ok hv)] at h
    exact hf v h

theorem scripted_changeContext {f : Context → Except Trouble Context}
    (hf : ∀ c t, f c = .error t → ∃ e, t = .error e) :
    Scripted (changeContext f : RunOn β Unit) := by
  intro m m' t h
  rw [changeContext_apply] at h
  cases hc : f m.context with
  | ok c =>
    rw [hc] at h
    cases h
  | error t' =>
    rw [hc] at h
    cases h
    exact hf _ _ hc

theorem error_of_mapError {x : Except ScriptError Context} {t : Trouble}
    (h : x.mapError .error = .error t) : ∃ e, t = Trouble.error e := by
  cases x with
  | ok c => cases h
  | error e =>
    cases h
    exact ⟨e, rfl⟩

theorem scripted_declare (name : String) (v : Value) (loc : Location) :
    Scripted (changeContext (·.declare (.word name) v loc) : RunOn β Unit) := by
  refine scripted_changeContext fun c t h => ?_
  rw [Context.declare_eq rfl] at h
  exact error_of_mapError h

theorem scripted_assign (name : String) (v : Value) :
    Scripted (changeContext (·.assign (.word name) v) : RunOn β Unit) := by
  refine scripted_changeContext fun c t h => ?_
  rw [Context.assign_eq rfl] at h
  split at h
  · exact error_of_mapError h
  · cases h
    exact ⟨_, rfl⟩

theorem scripted_repetitions {v : Value} {f : Nat → RunOn β Unit} (hf : ∀ n, Scripted (f n)) :
    Scripted (lift ((repetitions v).mapError Cause.trouble) >>= f) := by
  intro m m' t h
  cases hr : repetitions v with
  | ok n =>
    rw [hr] at h
    exact hf n h
  | error cause =>
    rw [hr] at h
    cases h
    exact ⟨_, rfl⟩

theorem scripted_pure {α : Type} (a : α) : Scripted (pure a : RunOn β α) := by
  intro m m' t h
  cases h

variable [Port β]

theorem scripted_statements {list : List Stmt} (h : ∀ s ∈ list, Scripted (statement (β := β) s)) :
    Scripted (statements (β := β) list) := by
  intro m m' t he
  obtain ⟨s, hs, m₁, -, he⟩ := statements_inv he
  exact h s hs he

theorem scripted_command [LawfulPort β] (loc : Location) (c : Command) :
    Scripted (commandStatement loc c : RunOn β Unit) := by
  intro m m' t h
  cases hr : command c m with
  | error halt m₁ =>
    obtain ⟨error, rfl, -⟩ := carryOut_of_command hr
    rw [commandStatement, bind_of_error hr] at h
    cases h
    exact ⟨error, rfl⟩
  | ok result m₁ =>
    rw [commandStatement, bind_of_ok hr] at h
    cases hs : result.success with
    | true =>
      obtain ⟨m₂, hd, -⟩ := conclude_done hs loc m₁
      rw [hd] at h
      cases h
    | false =>
      obtain ⟨m₂, hd, -⟩ := conclude_failed hs loc m₁
      rw [hd] at h
      cases h
      exact ⟨_, rfl⟩

mutual

/-- One case for each kind of statement; misfits are no proper ones. -/
theorem scripted_statement [LawfulPort β] :
    (s : Stmt) → s.Over P → Scripted (statement s : RunOn β Unit)
  | .declare loc label init, ho => by
    cases ho with
    | declare _ hn he =>
      cases hn with
      | word name =>
        exact scripted_counted (scripted_evaluate he fun v => scripted_declare name v loc) loc _
  | .assign loc label value, ho => by
    cases ho with
    | assign _ hn he =>
      cases hn with
      | word name =>
        exact scripted_counted (scripted_evaluate he fun v => scripted_assign name v) loc _
  | .branch loc condition yes no, ho => by
    cases ho with
    | branch _ he hy hn =>
      have hyes := scripted_chosen yes hy
      have hno := scripted_otherwise no hn
      refine scripted_counted (scripted_evaluate he fun v => scripted_inScope ?_) loc _
      split
      · exact hyes
      · exact hno
  | .loop loc count body, ho => by
    cases ho with
    | loop _ he hb =>
      have hbody := scripted_block body hb
      refine scripted_counted (scripted_evaluate he fun v => scripted_repetitions fun n => ?_) loc _
      exact scripted_times (fun i => scripted_iteration hbody i) 0 n
  | .command loc c, _ => scripted_counted (scripted_command loc c) loc _
  | .evaluate loc e, ho => by
    cases ho with
    | evaluate _ he =>
      exact scripted_counted (scripted_evaluate he fun _ => scripted_pure ()) loc _
  | .misfit _, ho => nomatch ho

theorem scripted_block [LawfulPort β] : (b : Body) → b.Over P → Scripted (block b : RunOn β Unit)
  | .statements list, ho => by
    cases ho with
    | statements hs => exact scripted_statements (scripted_all list hs)
  | .misfit _, ho => nomatch ho

theorem scripted_chosen [LawfulPort β] : (b : Body) → b.Over P → Scripted (chosen b : RunOn β Unit)
  | .statements list, ho => by
    cases ho with
    | statements hs => exact scripted_statements (scripted_all list hs)
  | .misfit _, ho => nomatch ho

theorem scripted_otherwise [LawfulPort β] : (no : Option Body) → (∀ body ∈ no, body.Over P) →
    Scripted (otherwise no : RunOn β Unit)
  | none, _ => scripted_pure ()
  | some body, ho => scripted_chosen body (ho body rfl)

theorem scripted_all [LawfulPort β] : (list : List Stmt) → (∀ s ∈ list, s.Over P) →
    ∀ s ∈ list, Scripted (statement (β := β) s)
  | [], _ => fun _ hm => nomatch hm
  | s :: rest, ho => by
    have hs := scripted_statement s (ho s List.mem_cons_self)
    have hrest := scripted_all rest fun s hm => ho s (List.mem_cons_of_mem _ hm)
    intro s' hm
    rcases List.mem_cons.mp hm with rfl | hm
    · exact hs
    · exact hrest s' hm

end

end Run

/-- A proper program on an idle machine comes to an outcome, as long as its first readings do. -/
theorem Machine.exists_outcome [Port β] [LawfulPort β] {p : Program} (hp : p.Over P)
    {m : Machine β} (hm : m.running = false)
    (hr : ∀ m₀ body, m.Begins p m₀ body → ∃ m₁, Run.refresh m₀ = .ok () m₁) :
    ∃ outcome, (m.execute p).1 = .ok outcome := by
  obtain ⟨m₀, list, hbegins, -⟩ := m.exists_begins hp hm
  obtain ⟨_, hl, hs⟩ := hbegins.statements hp
  cases hl
  obtain ⟨m₁, hr⟩ := hr m₀ _ hbegins
  rw [hbegins.execute_eq, Machine.runBody, Run.program, Run.bind_of_ok hr]
  cases he : Run.block (.statements list) m₁ with
  | ok u m' => exact ⟨_, rfl⟩
  | error halt m' =>
    cases halt with
    | stopped => exact ⟨_, rfl⟩
    | trouble t =>
      obtain ⟨error, rfl⟩ := Run.scripted_statements (Run.scripted_all list hs) he
      exact ⟨_, rfl⟩

end AgentScript

import AgentScript.Proofs.Context.Guard
import AgentScript.Proofs.Machine.Demand
import AgentScript.Proofs.Machine.Reach

/-! Where errors point. A run that ends with an error names the first place in a source on the way
from the construct that failed out to the statement of the program that it stands in. -/
namespace AgentScript

variable {β : Type}

def Stmt.subject? : Stmt → Option Expr
  | declare _ _ e | assign _ _ e | branch _ e _ _ | loop _ e _ | evaluate _ e => some e
  | command .. | misfit _ => none

namespace Run

section Parts

variable {loc : Location} {kind : String} {m m' : Machine β} {t : Trouble} {halt : Halt}

theorem counted_inv {part : RunOn β Unit}
    (h : counted loc kind part m = .error (.trouble t) m') :
    ∃ t' m'', part (m.note loc kind) = .error (.trouble t') m'' ∧ t = t'.locate loc := by
  change (locate loc part >>= fun _ => changeContext fun c => .ok c.countStatement)
    (m.note loc kind) = _ at h
  rcases bind_error h with hl | ⟨_, m₁, -, hc⟩
  · rcases locate_error hl with ⟨t', ht, hp⟩ | ⟨ht, -⟩
    · cases ht
      exact ⟨t', m', hp, rfl⟩
    · cases ht
  · rw [changeContext_apply] at hc
    cases hc

theorem told_refusal (name : String) (loc : Location) :
    Blame.ToldBy ⟨.readonly name, [loc.refusalMark]⟩ ((Context.refusal name loc).locate loc) where
  cause := ScriptError.cause_locate ..
  place := by
    rw [ScriptError.mark?_locate]
    unfold ScriptError.mark? Context.refusal Blame.place? Location.refusalMark Location.mark
    by_cases hz : loc.line = 0
    · simp [hz]
    · by_cases hl : 0 < loc.line
      · simp [hz, hl]
      · simp [hz, hl]

/-- The error of a statement, in which the statement itself has located what one of its parts came
to. -/
theorem counted_told {part : RunOn β Unit} {error : ScriptError} {b : Blame}
    (h : part (m.note loc kind) = .error (.trouble (.error error)) m') (ht : b.ToldBy error) :
    ∃ error m', counted loc kind part m = .error (.trouble (.error error)) m' ∧
      (b.within loc).ToldBy error :=
  ⟨_, m', counted_error h, ht.locate loc⟩

/-- The error of a statement that fails by itself. -/
theorem counted_own {part : RunOn β Unit} {cause : Cause}
    (h : part (m.note loc kind) = .error (.trouble cause.trouble) m') :
    ∃ error m', counted loc kind part m = .error (.trouble (.error error)) m' ∧
      (Blame.on cause loc).ToldBy error :=
  ⟨_, m', counted_error h, .fresh cause loc⟩

theorem inScope_inv {part : RunOn β Unit} (h : inScope part m = .error halt m') :
    ∃ m'', part { m with context := m.context.enter } = .error halt m'' := by
  unfold inScope at h
  split at h
  · cases h
  · next hp =>
    cases h
    exact ⟨_, hp⟩

theorem inScope_error {part : RunOn β Unit}
    (h : part { m with context := m.context.enter } = .error halt m') :
    ∃ m'', inScope part m = .error halt m'' := by
  unfold inScope
  rw [h]
  exact ⟨_, rfl⟩

/-- The counter of a loop can always be defined, as its frame is new. -/
theorem exists_index (c : Context) (i : Nat) :
    ∃ c', c.enter.define indexName (.number (Float.ofNat i)) .local false ⟨0, 0⟩ = .ok c' := by
  have hl : c.enter.locals = [] :: c.locals := rfl
  have hf : ((Frame.find? [] indexName).any (·.readonly)) = false := rfl
  obtain ⟨c', f', h, -⟩ := Context.define_shadows hl hf (.number (Float.ofNat i)) ⟨0, 0⟩
  exact ⟨c', h⟩

/-- An iteration defines its counter and then runs its body, in a scope of its own. -/
theorem iteration_eq {body : RunOn β Unit} {i : Nat} {c : Context}
    (hc : m.context.enter.define indexName (.number (Float.ofNat i)) .local false ⟨0, 0⟩ =
      .ok c) : iteration body i m = inScope (fun _ => body { m with context := c }) m := by
  have hset : changeContext (fun c => (c.define indexName (.number (Float.ofNat i)) .local false
      ⟨0, 0⟩).mapError .error) { m with context := m.context.enter } =
        .ok () { m with context := c } := by
    rw [changeContext_apply]
    dsimp only
    rw [hc]
    rfl
  have hbind := bind_of_ok hset fun _ => body
  unfold iteration inScope
  rw [hbind]

theorem iteration_inv {body : RunOn β Unit} {i : Nat} (h : iteration body i m = .error halt m') :
    ∃ c m'', m.context.enter.define indexName (.number (Float.ofNat i)) .local false ⟨0, 0⟩ =
      .ok c ∧ body { m with context := c } = .error halt m'' := by
  obtain ⟨c, hc⟩ := exists_index m.context i
  rw [iteration_eq hc] at h
  obtain ⟨m'', h⟩ := inScope_inv h
  exact ⟨c, m'', hc, h⟩

theorem iteration_error {body : RunOn β Unit} {i : Nat} {c : Context}
    (hc : m.context.enter.define indexName (.number (Float.ofNat i)) .local false ⟨0, 0⟩ = .ok c)
    (h : body { m with context := c } = .error halt m') :
    ∃ m'', iteration body i m = .error halt m'' := by
  rw [iteration_eq hc]
  exact inScope_error h

theorem times_succ {part : Nat → RunOn β Unit} {i n : Nat} (hs : m.stopRequested = false) :
    times part i (n + 1) m = (part i >>= fun _ => times part (i + 1) n) m := by
  have hc : checkStop m = .ok () m := by
    rw [checkStop_apply, hs]
    rfl
  exact bind_of_ok hc _

theorem times_stopped {part : Nat → RunOn β Unit} {i n : Nat} (hs : m.stopRequested = true) :
    times part i (n + 1) m = .error .stopped m := by
  have hc : checkStop m = .error .stopped m := by
    rw [checkStop_apply, hs]
    rfl
  exact bind_of_error hc _

/-- A loop that fails fails in one of its iterations. -/
theorem times_inv {part : Nat → RunOn β Unit} {i n : Nat}
    (h : times part i n m = .error (.trouble t) m') :
    ∃ k m₁, k < n ∧ times part i k m = .ok () m₁ ∧ m₁.stopRequested = false ∧
      part (i + k) m₁ = .error (.trouble t) m' := by
  induction n generalizing i m with
  | zero => cases h
  | succ n ih =>
    cases hs : m.stopRequested with
    | true =>
      rw [times_stopped hs] at h
      cases h
    | false =>
      rw [times_succ hs] at h
      rcases bind_error h with hp | ⟨u, m₁, hp, h⟩
      · exact ⟨0, m, n.succ_pos, rfl, hs, hp⟩
      · obtain ⟨k, m₂, hk, ht, hs₂, hp₂⟩ := ih h
        refine ⟨k + 1, m₂, Nat.succ_lt_succ hk, ?_, hs₂, ?_⟩
        · rw [times_succ hs, bind_of_ok hp, ht]
        · rw [show i + (k + 1) = i + 1 + k by omega, hp₂]

theorem times_error {part : Nat → RunOn β Unit} {i n k : Nat} {m₁ : Machine β} (hk : k < n)
    (ht : times part i k m = .ok () m₁) (hs₁ : m₁.stopRequested = false)
    (h : part (i + k) m₁ = .error halt m') : times part i n m = .error halt m' := by
  induction k generalizing i n m with
  | zero =>
    cases ht
    obtain ⟨n, rfl⟩ := Nat.exists_eq_add_one_of_ne_zero (Nat.ne_of_gt hk)
    rw [times_succ hs₁]
    exact bind_of_error h _
  | succ k ih =>
    obtain ⟨n, rfl⟩ := Nat.exists_eq_add_one_of_ne_zero (Nat.ne_of_gt (Nat.zero_lt_of_lt hk))
    cases hs : m.stopRequested with
    | true =>
      rw [times_stopped hs] at ht
      cases ht
    | false =>
      rw [times_succ hs] at ht ⊢
      obtain ⟨u, m₂, hp, ht⟩ := exists_of_bind_ok ht
      rw [bind_of_ok hp]
      refine ih (Nat.lt_of_succ_lt_succ hk) ht ?_
      rwa [show i + 1 + k = i + (k + 1) by omega]

end Parts

variable [Port β]

section Arrivals

variable {list : List Stmt} {s : Stmt} {m m' m₁ : Machine β} {halt : Halt} {t : Trouble}

theorem statements_cons (rest : List Stmt) (hs : m.stopRequested = false) :
    statements (s :: rest) m = (statement s >>= fun _ => statements rest) m := by
  have hc : checkStop m = .ok () m := by
    rw [checkStop_apply, hs]
    rfl
  exact bind_of_ok hc _

theorem statements_stopped (rest : List Stmt) (hs : m.stopRequested = true) :
    statements (s :: rest) m = .error .stopped m := by
  have hc : checkStop m = .error .stopped m := by
    rw [checkStop_apply, hs]
    rfl
  exact bind_of_error hc _

/-- A block that fails fails in one of its statements. -/
theorem statements_inv (h : statements list m = .error (.trouble t) m') :
    ∃ s ∈ list, ∃ m₁, Arrives list m s m₁ ∧ statement s m₁ = .error (.trouble t) m' := by
  induction list generalizing m with
  | nil => cases h
  | cons s rest ih =>
    cases hs : m.stopRequested with
    | true =>
      rw [statements_stopped rest hs] at h
      cases h
    | false =>
      rw [statements_cons rest hs] at h
      rcases bind_error h with hp | ⟨u, m₁, hp, h⟩
      · exact ⟨s, List.mem_cons_self, m, .first hs, hp⟩
      · obtain ⟨s', hm, m₂, ha, h'⟩ := ih h
        exact ⟨s', List.mem_cons_of_mem _ hm, m₂, .next hs hp ha, h'⟩

theorem Arrives.error (ha : Arrives list m s m₁) (h : statement s m₁ = .error halt m') :
    statements list m = .error halt m' := by
  induction ha with
  | first hs =>
    rw [statements_cons _ hs]
    exact bind_of_error h _
  | next hs hp _ ih =>
    rw [statements_cons _ hs, bind_of_ok hp]
    exact ih h

end Arrivals

/-- A statement fails on a machine. What is to blame lies in the expression that it begins with, in an
argument of its command, in the statement itself, or in a statement of a block that it opens. -/
inductive Fails : Stmt → Machine β → Blame → Prop
  | subject {s : Stmt} {e : Expr} {m : Machine β} {b : Blame} (hs : s.subject? = some e)
    (h : e.Fails m.context b) : Fails s m (b.within s.loc)
  | defined {loc : Location} {name : String} {e : Expr} {m : Machine β} {v : Value}
    {binding : Binding} (hv : e.eval m.context = .ok v)
    (hb : m.context.innermost.find? name = some binding) (hr : binding.readonly = true) :
    Fails (.declare loc (.word name) e) m ⟨.readonly name, [loc.refusalMark]⟩
  | undefined {loc : Location} {name : String} {e : Expr} {m : Machine β} {v : Value}
    (hv : e.eval m.context = .ok v) (hb : m.context.lookup? name = none) :
    Fails (.assign loc (.word name) e) m (.on (.undefined name) loc)
  | readonly {loc : Location} {name : String} {e : Expr} {m : Machine β} {v : Value}
    {binding : Binding} (hv : e.eval m.context = .ok v)
    (hb : m.context.lookup? name = some binding) (hr : binding.readonly = true) :
    Fails (.assign loc (.word name) e) m (.on (.readonly name) loc)
  | count {loc : Location} {count : Expr} {body : Body} {m : Machine β} {v : Value}
    {cause : Cause} (hv : count.eval m.context = .ok v) (hn : repetitions v = .error cause) :
    Fails (.loop loc count body) m (.on cause loc)
  | argument {loc : Location} {c : Command} {m : Machine β} {b : Blame}
    (h : c.Fails m.context b) : Fails (.command loc c) m (b.within loc)
  | command {loc : Location} {c : Command} {m m' : Machine β} {result : CommandResult}
    (h : command c (m.note loc "CommandStatement") = .ok result m')
    (hs : result.success = false) :
    Fails (.command loc c) m (.on (.commandFailed result.message) loc)
  | block {s t : Stmt} {inner : List Stmt} {m m₁ m₂ : Machine β} {b : Blame}
    (ho : Opens s m inner m₁) (ha : Arrives inner m₁ t m₂) (h : Fails t m₂ b) :
    Fails s m (b.within s.loc)

variable {m m' m₁ : Machine β} {b : Blame} {t : Trouble}

theorem statement_of_subject {s : Stmt} {e : Expr} (hs : s.subject? = some e)
    (h : e.Fails m.context b) :
    ∃ error m', statement s m = .error (.trouble (.error error)) m' ∧
      (b.within s.loc).ToldBy error := by
  obtain ⟨error, he, ht⟩ := h.eval
  have hbind : ∀ {α : Type} (kind : String) (f : Value → RunOn β α),
      (evaluate e >>= f) (m.note s.loc kind) =
        .error (.trouble (.error error)) (m.note s.loc kind) :=
    fun kind f => bind_of_error (evaluate_error (m := m.note s.loc kind) he) f
  cases s with
  | declare loc name init =>
    cases hs
    exact counted_told (hbind _ _) ht
  | assign loc name value =>
    cases hs
    exact counted_told (hbind _ _) ht
  | branch loc condition yes no =>
    cases hs
    exact counted_told (hbind _ _) ht
  | loop loc count body =>
    cases hs
    exact counted_told (hbind _ _) ht
  | evaluate loc e =>
    cases hs
    exact counted_told (hbind _ _) ht
  | command loc c => cases hs
  | misfit tree => cases hs

/-- A block that fails makes the statement fail that opened it. -/
theorem Opens.error {s : Stmt} {list : List Stmt} {error : ScriptError} (ho : Opens s m list m₁)
    (h : statements list m₁ = .error (.trouble (.error error)) m') (ht : b.ToldBy error) :
    ∃ error m', statement s m = .error (.trouble (.error error)) m' ∧
      (b.within s.loc).ToldBy error := by
  cases ho with
  | @yes loc condition _ no _ v hv hy =>
    obtain ⟨m'', hb⟩ := inScope_error (m := m.note loc "IfStatement") h
    have hp : (evaluate condition >>= fun v =>
        inScope (if v.truthy then chosen (.statements list) else otherwise no))
          (m.note loc "IfStatement") = .error (.trouble (.error error)) m'' := by
      rw [bind_of_ok (evaluate_ok (m := m.note loc "IfStatement") hv), hy]
      exact hb
    exact counted_told hp ht
  | @no loc condition yes _ _ v hv hy =>
    obtain ⟨m'', hb⟩ := inScope_error (m := m.note loc "IfStatement") h
    have hp : (evaluate condition >>= fun v =>
        inScope (if v.truthy then chosen yes else otherwise (some (.statements list))))
          (m.note loc "IfStatement") = .error (.trouble (.error error)) m'' := by
      rw [bind_of_ok (evaluate_ok (m := m.note loc "IfStatement") hv), hy]
      exact hb
    exact counted_told hp ht
  | @iteration loc count _ _ m₂ v n i c hv hn hi hm hs hc =>
    have hblock : block (.statements list) { m₂ with context := c } =
        .error (.trouble (.error error)) m' := h
    obtain ⟨m'', hb⟩ := iteration_error hc hblock
    have hp : (evaluate count >>= fun v =>
        lift ((repetitions v).mapError Cause.trouble) >>= fun n =>
          times (Run.iteration (block (.statements list))) 0 n)
            (m.note loc "RepeatStatement") = .error (.trouble (.error error)) m'' := by
      rw [bind_of_ok (evaluate_ok (m := m.note loc "RepeatStatement") hv), hn]
      refine times_error hi hm hs ?_
      rw [Nat.zero_add]
      exact hb
    exact counted_told hp ht

variable {P : Location → Prop}

def Blamed (t : Trouble) (fails : Blame → Prop) : Prop :=
  ∃ error b, t = .error error ∧ fails b ∧ b.ToldBy error

theorem blamed_subject {s : Stmt} {e : Expr} (hs : s.subject? = some e) (he : e.Over P)
    (h : e.eval m.context = .error t) : Blamed (t.locate s.loc) (Fails s m) := by
  obtain ⟨error, b, rfl, hb, ht⟩ := Expr.fails_of_eval he h
  exact ⟨_, _, rfl, .subject hs hb, ht.locate _⟩

/-- A statement that fails once its subject is looked at: the subject is to blame, or it has a
value and what the statement does with that value fails. -/
theorem subject_inv {α : Type} {loc : Location} {kind : String} {f : Value → RunOn β α} {s : Stmt}
    {e : Expr} (hs : s.subject? = some e) (he : e.Over P)
    (h : (evaluate e >>= f) (m.note loc kind) = .error (.trouble t) m') (hl : s.loc = loc) :
    Blamed (t.locate loc) (Fails s m) ∨
      ∃ v, e.eval m.context = .ok v ∧ f v (m.note loc kind) = .error (.trouble t) m' := by
  cases hv : e.eval m.context with
  | error t =>
    rw [bind_of_error (evaluate_error (m := m.note loc kind) hv)] at h
    cases h
    exact .inl (hl ▸ blamed_subject hs he hv)
  | ok v =>
    rw [bind_of_ok (evaluate_ok (m := m.note loc kind) hv)] at h
    exact .inr ⟨v, rfl, h⟩

theorem blamed_declare {loc : Location} {label : Label} (hl : label.IsWord) {e : Expr}
    (he : e.Over P) (h : statement (.declare loc label e) m = .error (.trouble t) m') :
    Blamed t (Fails (.declare loc label e) m) := by
  obtain ⟨t', m'', hp, rfl⟩ := counted_inv h
  obtain hblamed | ⟨v, hv, hp⟩ := subject_inv (s := .declare loc label e) rfl he hp rfl
  · exact hblamed
  cases hl with
  | word name =>
    have hd : m.context.declare (.word name) v loc = _ := Context.declare_eq rfl m.context v loc
    cases hr : m.context.define name v .local false loc with
    | ok c =>
      rw [hr] at hd
      rw [changeContext_ok (m := m.note loc _) hd] at hp
      cases hp
    | error e' =>
      obtain ⟨binding, hb, hr'⟩ := Context.readonly_of_define hr
      rw [Context.define_readonly hb hr'] at hd
      rw [changeContext_error (m := m.note loc _) hd] at hp
      cases hp
      exact ⟨_, _, rfl, .defined hv hb hr', told_refusal name loc⟩

theorem blamed_assign {loc : Location} {label : Label} (hl : label.IsWord) {e : Expr}
    (he : e.Over P) (h : statement (.assign loc label e) m = .error (.trouble t) m') :
    Blamed t (Fails (.assign loc label e) m) := by
  obtain ⟨t', m'', hp, rfl⟩ := counted_inv h
  obtain hblamed | ⟨v, hv, hp⟩ := subject_inv (s := .assign loc label e) rfl he hp rfl
  · exact hblamed
  cases hl with
  | word name =>
    have ha : m.context.assign (.word name) v = _ := Context.assign_eq rfl m.context v
    cases hb : m.context.lookup? name with
    | none =>
      rw [Context.has, hb] at ha
      rw [changeContext_error (m := m.note loc _) ha] at hp
      cases hp
      exact ⟨_, _, rfl, .undefined hv hb, .fresh _ _⟩
    | some binding =>
      rw [Context.has, hb] at ha
      cases hs : m.context.set name v with
      | ok c =>
        rw [hs] at ha
        rw [changeContext_ok (m := m.note loc _) ha] at hp
        cases hp
      | error e' =>
        have hr := Context.readonly_of_set hb hs
        rw [Context.set_readonly hb hr] at ha
        rw [changeContext_error (m := m.note loc _) ha] at hp
        cases hp
        exact ⟨_, _, rfl, .readonly hv hb hr, .fresh _ _⟩

theorem blamed_evaluate {loc : Location} {e : Expr} (he : e.Over P)
    (h : statement (.evaluate loc e) m = .error (.trouble t) m') :
    Blamed t (Fails (.evaluate loc e) m) := by
  obtain ⟨t', m'', hp, rfl⟩ := counted_inv h
  obtain hblamed | ⟨v, -, hp⟩ := subject_inv (s := .evaluate loc e) rfl he hp rfl
  · exact hblamed
  · cases hp

theorem Blamed.block {s s' : Stmt} {inner : List Stmt} {m₂ : Machine β}
    (h : Blamed t (Fails s' m₂)) (ho : Opens s m inner m₁) (ha : Arrives inner m₁ s' m₂) :
    Blamed (t.locate s.loc) (Fails s m) := by
  obtain ⟨error, b, rfl, hb, ht⟩ := h
  exact ⟨_, _, rfl, .block ho ha hb, ht.locate _⟩

/-- For whatever the statement fails, something is to blame. -/
def StatementBlamed (s : Stmt) : Prop :=
  ∀ ⦃m m' : Machine β⦄ ⦃t : Trouble⦄, statement s m = .error (.trouble t) m' →
    Blamed t (Fails s m)

/-- For whatever a block of these statements fails, one of them is to blame. -/
def BlockBlamed (list : List Stmt) : Prop :=
  ∀ ⦃m m' : Machine β⦄ ⦃t : Trouble⦄, statements list m = .error (.trouble t) m' →
    ∃ s m₁, Arrives list m s m₁ ∧ Blamed t (Fails s m₁)

theorem blockBlamed_of_statements {list : List Stmt}
    (h : ∀ s ∈ list, StatementBlamed (β := β) s) : BlockBlamed (β := β) list := by
  intro m m' t he
  obtain ⟨s, hm, m₁, ha, hs⟩ := statements_inv he
  exact ⟨s, m₁, ha, h s hm hs⟩

theorem blamed_branch {loc : Location} {condition : Expr} {yes : List Stmt} {no : Option Body}
    (he : condition.Over P) (hy : BlockBlamed (β := β) yes)
    (hn : no = none ∨ ∃ list, no = some (.statements list) ∧ BlockBlamed (β := β) list)
    (h : statement (.branch loc condition (.statements yes) no) m = .error (.trouble t) m') :
    Blamed t (Fails (.branch loc condition (.statements yes) no) m) := by
  obtain ⟨t', m'', hp, rfl⟩ := counted_inv h
  obtain hblamed | ⟨v, hv, hp⟩ :=
    subject_inv (s := .branch loc condition (.statements yes) no) rfl he hp rfl
  · exact hblamed
  obtain ⟨m₂, hb⟩ := inScope_inv hp
  cases hc : v.truthy with
  | true =>
    rw [hc] at hb
    obtain ⟨s, m₃, ha, hbl⟩ := hy hb
    exact hbl.block (.yes hv hc) ha
  | false =>
    rw [hc] at hb
    rcases hn with rfl | ⟨list, rfl, hl⟩
    · cases hb
    · obtain ⟨s, m₃, ha, hbl⟩ := hl hb
      exact hbl.block (.no hv hc) ha

theorem blamed_loop {loc : Location} {count : Expr} {body : List Stmt} (he : count.Over P)
    (hb : BlockBlamed (β := β) body)
    (h : statement (.loop loc count (.statements body)) m = .error (.trouble t) m') :
    Blamed t (Fails (.loop loc count (.statements body)) m) := by
  obtain ⟨t', m'', hp, rfl⟩ := counted_inv h
  obtain hblamed | ⟨v, hv, hp⟩ :=
    subject_inv (s := .loop loc count (.statements body)) rfl he hp rfl
  · exact hblamed
  cases hr : repetitions v with
  | error cause =>
    rw [hr] at hp
    cases hp
    exact ⟨_, _, rfl, .count hv hr, .fresh _ _⟩
  | ok n =>
    rw [hr] at hp
    obtain ⟨k, m₂, hk, ht, hs, hi⟩ := times_inv hp
    rw [Nat.zero_add] at hi
    obtain ⟨c, m₃, hc, hbody⟩ := iteration_inv hi
    obtain ⟨s, m₄, ha, hbl⟩ := hb hbody
    exact hbl.block (.iteration hv hr hk ht hs hc) ha

/-- A statement that fails ends the run with an error, and the error tells what is to blame. -/
theorem Fails.statement [HostPort β] {s : Stmt} (h : Fails s m b) :
    ∃ error m', Run.statement s m = .error (.trouble (.error error)) m' ∧ b.ToldBy error := by
  induction h with
  | subject hs h => exact statement_of_subject hs h
  | @defined loc name e m v binding hv hb hr =>
    have hd : m.context.declare (.word name) v loc = .error (.error (Context.refusal name loc)) := by
      rw [Context.declare_eq rfl, Context.define_readonly hb hr]
      rfl
    have hp : (evaluate e >>= fun v => changeContext (·.declare (.word name) v loc))
        (m.note loc "VariableDeclaration") =
          .error (.trouble (.error (Context.refusal name loc)))
            (m.note loc "VariableDeclaration") := by
      rw [bind_of_ok (evaluate_ok (m := m.note loc "VariableDeclaration") hv)]
      exact changeContext_error hd
    exact ⟨_, _, counted_error hp, told_refusal name loc⟩
  | @undefined loc name e m v hv hb =>
    have ha : m.context.assign (.word name) v = .error (Cause.undefined name).trouble := by
      rw [Context.assign_eq rfl, Context.has, hb]
      rfl
    have hp : (evaluate e >>= fun v => changeContext (·.assign (.word name) v))
        (m.note loc "Assignment") =
          .error (.trouble (Cause.undefined name).trouble) (m.note loc "Assignment") := by
      rw [bind_of_ok (evaluate_ok (m := m.note loc "Assignment") hv)]
      exact changeContext_error ha
    exact counted_own hp
  | @readonly loc name e m v binding hv hb hr =>
    have ha : m.context.assign (.word name) v = .error (Cause.readonly name).trouble := by
      rw [Context.assign_eq rfl, Context.has, hb, Context.set_readonly hb hr]
      rfl
    have hp : (evaluate e >>= fun v => changeContext (·.assign (.word name) v))
        (m.note loc "Assignment") =
          .error (.trouble (Cause.readonly name).trouble) (m.note loc "Assignment") := by
      rw [bind_of_ok (evaluate_ok (m := m.note loc "Assignment") hv)]
      exact changeContext_error ha
    exact counted_own hp
  | @count loc count body m v cause hv hn =>
    have hp : (evaluate count >>= fun v =>
        lift ((repetitions v).mapError Cause.trouble) >>= fun n =>
          times (iteration (Run.block body)) 0 n) (m.note loc "RepeatStatement") =
            .error (.trouble cause.trouble) (m.note loc "RepeatStatement") := by
      rw [bind_of_ok (evaluate_ok (m := m.note loc "RepeatStatement") hv), hn]
      rfl
    exact counted_own hp
  | @argument loc c m b h =>
    obtain ⟨error, he, ht⟩ := command_of_fails (m := m.note loc "CommandStatement") h
    exact counted_told (bind_of_error he _) ht
  | @command loc c m m' result h hs =>
    obtain ⟨m'', hc, -⟩ := conclude_failed hs loc m'
    have hp : commandStatement loc c (m.note loc "CommandStatement") =
        .error (.trouble (Cause.commandFailed result.message).trouble) m'' := by
      rw [commandStatement, bind_of_ok h, hc]
    exact counted_own hp
  | block ho ha _ ih =>
    obtain ⟨error, m', h, ht⟩ := ih
    exact ho.error (ha.error h) ht

theorem blamed_command [HostPort β] {loc : Location} {c : Command} (hc : c.Over P)
    (h : statement (.command loc c) m = .error (.trouble t) m') :
    Blamed t (Fails (.command loc c) m) := by
  obtain ⟨t', m'', hp, rfl⟩ := counted_inv h
  cases hr : command c (m.note loc "CommandStatement") with
  | error halt m₁ =>
    obtain ⟨error, b, rfl, hf, ht⟩ := fails_of_command hc hr
    rw [commandStatement, bind_of_error hr] at hp
    cases hp
    exact ⟨_, _, rfl, .argument hf, ht.locate loc⟩
  | ok result m₁ =>
    rw [commandStatement, bind_of_ok hr] at hp
    cases hs : result.success with
    | true =>
      obtain ⟨m₂, hd, -⟩ := conclude_done hs loc m₁
      rw [hd] at hp
      cases hp
    | false =>
      obtain ⟨m₂, hd, -⟩ := conclude_failed hs loc m₁
      rw [hd] at hp
      cases hp
      exact ⟨_, _, rfl, .command hr hs, .fresh _ _⟩

mutual

theorem blamed_statement [HostPort β] : (s : Stmt) → s.Over P → StatementBlamed (β := β) s
  | .declare .., ho, _, _, _, h => by
    cases ho with
    | declare _ hn he => exact blamed_declare hn he h
  | .assign .., ho, _, _, _, h => by
    cases ho with
    | assign _ hn he => exact blamed_assign hn he h
  | .branch loc condition yes no, ho, _, _, _, h => by
    cases ho with
    | branch _ he hy hn =>
      have hyes := blamed_body yes hy
      have hno := blamed_otherwise no hn
      obtain ⟨list, rfl, hl⟩ := hyes
      exact blamed_branch he hl hno h
  | .loop loc count body, ho, _, _, _, h => by
    cases ho with
    | loop _ he hb =>
      have hbody := blamed_body body hb
      obtain ⟨list, rfl, hl⟩ := hbody
      exact blamed_loop he hl h
  | .command .., ho, _, _, _, h => by
    cases ho with
    | command _ hc => exact blamed_command hc h
  | .evaluate .., ho, _, _, _, h => by
    cases ho with
    | evaluate _ he => exact blamed_evaluate he h
  | .misfit _, ho, _, _, _, _ => nomatch ho

theorem blamed_body [HostPort β] : (b : Body) → b.Over P →
    ∃ list, b = .statements list ∧ BlockBlamed (β := β) list
  | .statements list, ho => by
    cases ho with
    | statements hs => exact ⟨list, rfl, blockBlamed_of_statements (blamed_statements list hs)⟩
  | .misfit _, ho => nomatch ho

theorem blamed_otherwise [HostPort β] : (no : Option Body) → (∀ body ∈ no, body.Over P) →
    no = none ∨ ∃ list, no = some (.statements list) ∧ BlockBlamed (β := β) list
  | none, _ => .inl rfl
  | some body, ho => by
    obtain ⟨list, rfl, hl⟩ := blamed_body body (ho body rfl)
    exact .inr ⟨list, rfl, hl⟩

theorem blamed_statements [HostPort β] : (list : List Stmt) → (∀ s ∈ list, s.Over P) →
    ∀ s ∈ list, StatementBlamed (β := β) s
  | [], _ => fun _ hm => nomatch hm
  | s :: rest, ho => by
    have hs := blamed_statement s (ho s List.mem_cons_self)
    have hrest := blamed_statements rest fun s hm => ho s (List.mem_cons_of_mem _ hm)
    intro s' hm
    rcases List.mem_cons.mp hm with rfl | hm
    · exact hs
    · exact hrest s' hm

end

theorem heading_of_fails {s : Stmt} (h : Fails s m b) :
    b.cause.kind.heading? = some "Execution error" := by
  induction h with
  | subject _ h => exact h.heading
  | defined => rfl
  | undefined => rfl
  | readonly => rfl
  | count _ hn => exact Cause.heading_of_own (own_of_repetitions hn)
  | argument h => exact h.heading
  | command => rfl
  | block _ _ _ ih => exact ih

end Run

namespace Run

/-- Readings are no concern of scripts: what goes wrong with them is a fault. -/
theorem blameless_refresh [Port β] [HostPort β] : Blameless (refresh : RunOn β Unit) := by
  refine law_refresh (P := fun _ => Blameless) fun s now m e m' h => ?_
  rw [changeContext_apply] at h
  cases hu : m.context.update s now with
  | ok c =>
    rw [hu] at h
    cases h
  | error f =>
    rw [hu] at h
    cases h

end Run

theorem Machine.Begins.statements {P : Location → Prop} {m m₀ : Machine β} {p : Program}
    {b : Body} (h : m.Begins p m₀ b) (hp : p.Over P) :
    ∃ list, b = .statements list ∧ ∀ s ∈ list, s.Over P := by
  obtain ⟨-, hb, -⟩ := h
  cases hp with
  | program loc ho =>
    cases hb
    cases ho with
    | statements hs => exact ⟨_, rfl, hs⟩

/-- What breaks a run off is a fault of the readings or the fault of a statement. -/
theorem Run.program_inv [Port β] [HostPort β] {P : Location → Prop} {list : List Stmt}
    (hl : ∀ s ∈ list, s.Over P) {m m' : Machine β} {t : Trouble}
    (h : program (.statements list) m = .error (.trouble t) m') :
    refresh m = .error (.trouble t) m' ∨ ∃ m₁ s m₂, refresh m = .ok () m₁ ∧
      Arrives list m₁ s m₂ ∧ Blamed t (Fails s m₂) := by
  cases hr : refresh m with
  | error halt m₁ =>
    rw [program, bind_of_error hr] at h
    exact .inl h
  | ok u m₁ =>
    rw [program, bind_of_ok hr] at h
    obtain ⟨s, m₂, ha, hs⟩ := blockBlamed_of_statements (blamed_statements list hl) h
    exact .inr ⟨m₁, s, m₂, rfl, ha, hs⟩

/-- A run of a proper program, on a bot whose refusals are faults of the host, ends with an error just
when a statement that it gets to fails, and the message names the cause of the failure and the
innermost place around it that is one in a source. -/
theorem error_names_innermost [Port β] [HostPort β] {p : Program} (hp : p.Proper)
    {m m₀ : Machine β} {b : Body} (h : m.Begins p m₀ b) (message : String) :
    (m.execute p).1 = .ok (.error message) ↔
      ∃ list m₁ s m₂ blame, b = .statements list ∧ Run.refresh m₀ = .ok () m₁ ∧
        Run.Arrives list m₁ s m₂ ∧ Run.Fails s m₂ blame ∧ message = blame.text := by
  obtain ⟨list, rfl, hl⟩ := h.statements hp
  rw [h.execute_eq, Machine.runBody]
  constructor
  · intro he
    cases hr : Run.program (.statements list) m₀ with
    | ok u m' =>
      rw [hr] at he
      cases he
    | error halt m' =>
      rw [hr] at he
      cases halt with
      | stopped => cases he
      | trouble t =>
        cases t with
        | fault f => cases he
        | error error =>
          cases he
          rcases Run.program_inv hl hr with hr | ⟨m₁, s, m₂, hm, ha, error', b, ht', hf, ht⟩
          · exact (Run.blameless_refresh m₀ error m' hr).elim
          · cases ht'
            exact ⟨list, m₁, s, m₂, b, rfl, hm, ha, hf, ht.text_eq (Run.heading_of_fails hf)⟩
  · rintro ⟨_, m₁, s, m₂, blame, hb, hr, ha, hf, rfl⟩
    cases hb
    obtain ⟨error, m', hs, ht⟩ := hf.statement
    have hprogram : Run.program (.statements list) m₀ = .error (.trouble (.error error)) m' := by
      rw [Run.program, Run.bind_of_ok hr]
      exact ha.error hs
    rw [hprogram]
    exact congrArg (fun text => Except.ok (Outcome.error text))
      (ht.text_eq (Run.heading_of_fails hf))

/-- A definition that is refused loses the column in which it stands if that is zero. -/
theorem error_names_innermost_column :
    ((Machine.fresh ({} : Idle) {} 0).execute
      (.ofStatements [.declare ⟨5, 0⟩ (.word "pi") (.string ⟨5, 9⟩ "")])).1 =
        .ok (.error
          "Execution error at line 5, column None: Cannot modify readonly variable: pi") := by
  have hp : Program.Proper (.ofStatements [.declare ⟨5, 0⟩ (.word "pi") (.string ⟨5, 9⟩ "")]) := by
    refine .program .start (.statements fun s hs => ?_)
    rw [List.mem_singleton.mp hs]
    exact .declare trivial (.word "pi") (.string trivial "")
  refine (error_names_innermost hp ⟨rfl, rfl, rfl⟩ _).mpr ?_
  exact ⟨_, _, _, _, ⟨.readonly "pi", [Location.refusalMark ⟨5, 0⟩]⟩, rfl, rfl, .first rfl,
    .defined rfl rfl rfl, by decide⟩

end AgentScript

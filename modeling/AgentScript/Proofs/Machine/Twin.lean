import AgentScript.Proofs.Context.Readings
import AgentScript.Proofs.Machine.Reach
import AgentScript.Proofs.Machine.Tie
import AgentScript.Proofs.Syntax.Match

/-! Programs that match do the same, up to what a lawful tie lets differ: a lemma for each construct,
in the order of their definitions. -/
namespace AgentScript

theorem Json.Match.nodeKind_eq {L : Location → Location → Prop} {tree tree' : Json}
    (h : tree.Match L tree') : tree'.nodeKind = tree.nodeKind := by
  cases h with
  | datum _ => rfl
  | node _ _ hk _ => exact hk

/-- Only objects are nodes. -/
theorem Json.exists_fields {tree : Json} {l : Location} (h : tree.nodeLocation? = some l) :
    ∃ fields, tree = .obj fields := by
  cases tree with
  | obj fields => exact ⟨fields, rfl⟩
  | _ => cases h

/-- Programs that match announce as many statements. -/
theorem Program.Match.size_eq {L : Location → Location → Prop} {N : Label → Label → Prop}
    {p p' : Program} (h : p.Match L N p') : p'.size = p.size := by
  cases h with
  | program l l' hb =>
    cases hb with
    | statements hs => exact congrArg Except.ok hs.length_eq.symm
    | misfit ht =>
      cases ht with
      | datum _ => rfl
      | node h h' hk hl =>
        obtain ⟨fields, rfl⟩ := Json.exists_fields h
        obtain ⟨fields', rfl⟩ := Json.exists_fields h'
        change Except.error (Fault.mk _ ("object of type '" ++ _ ++ "' has no len()")) = _
        rw [hk]
        rfl
  | misfit ht =>
    change Except.error (Fault.noAttribute _ "statements") = _
    rw [ht.nodeKind_eq]
    rfl

def Machine.Raises {β : Type} [Port β] (m : Machine β) (p : Program) (e : ScriptError) : Prop :=
  ∃ m₀ body m₁, m.Begins p m₀ body ∧ Run.program body m₀ = .error (.trouble (.error e)) m₁

theorem Machine.Raises.outcome {β : Type} [Port β] {m : Machine β} {p : Program} {e : ScriptError}
    (h : m.Raises p e) : (m.execute p).1 = .ok (.error e.text) := by
  obtain ⟨m₀, body, m₁, hm, he⟩ := h
  rw [hm.execute_eq, runBody, he]
  rfl

namespace Tie

open Run

variable {α β γ : Type} {T : Tie β}

section Parts

theorem twins_pure (a : α) : T.Twins (pure a) (pure a) := fun _ _ h => .ok a h

theorem twins_fail {t t' : Trouble} (h : T.Troubles t t') :
    T.Twins (fail t : RunOn β α) (fail t') := fun _ _ hm => .trouble h hm

theorem twins_bind {part part' : RunOn β α} {f f' : α → RunOn β γ} (hp : T.Twins part part')
    (hf : ∀ a, T.Twins (f a) (f' a)) : T.Twins (part >>= f) (part' >>= f') :=
  fun _ _ h => ends_bind (hp h) fun a _ _ h => hf a h

theorem twins_modify {g g' : Machine β → Machine β}
    (h : ∀ ⦃m m'⦄, T.Machines m m' → T.Machines (g m) (g' m')) :
    T.Twins (modify g) (modify g') := fun _ _ hm => .ok () (h hm)

theorem Machines.withContext {m m' : Machine β} (h : T.Machines m m') {c c' : Context}
    (hc : T.contexts c c') : T.Machines { m with context := c } { m' with context := c' } := by
  obtain ⟨hb, -, ho⟩ := h
  exact ⟨hb, hc, ho⟩

theorem ends_lift {r r' : Except Trouble α} (h : T.Agree Eq r r') {m m' : Machine β}
    (hm : T.Machines m m') : T.Ends T.Troubles (lift r m) (lift r' m') := by
  cases h with
  | ok h =>
    cases h
    exact .ok _ hm
  | error ht => exact .trouble ht hm

theorem Agree.bind {V : γ → γ → Prop} {r r' : Except Trouble α}
    {f f' : α → Except Trouble γ} (h : T.Agree Eq r r') (hf : ∀ a, T.Agree V (f a) (f' a)) :
    T.Agree V (r >>= f) (r' >>= f') := by
  cases h with
  | ok h =>
    cases h
    exact hf _
  | error ht => exact .error ht

theorem ends_changeContext {f f' : Context → Except Trouble Context} {m m' : Machine β}
    (hm : T.Machines m m') (hc : T.Agree T.contexts (f m.context) (f' m'.context)) :
    T.Ends T.Troubles (changeContext f m) (changeContext f' m') := by
  rw [changeContext_apply, changeContext_apply]
  generalize f m.context = r at hc ⊢
  generalize f' m'.context = r' at hc ⊢
  cases hc with
  | ok hc => exact .ok () (hm.withContext hc)
  | error ht => exact .trouble ht hm

theorem twins_changeContext {f f' : Context → Except Trouble Context}
    (h : ∀ ⦃c c'⦄, T.contexts c c' → T.Agree T.contexts (f c) (f' c')) :
    T.Twins (changeContext f) (changeContext f') :=
  fun _ _ hm => ends_changeContext hm (h hm.context)

theorem twins_checkStop : T.Twins checkStop checkStop := by
  intro m m' hm
  have hs : m'.stopRequested = m.stopRequested := by
    obtain ⟨hb, hc, ho⟩ := hm
    rfl
  rw [checkStop_apply, checkStop_apply, hs]
  split
  · exact .stopped hm
  · exact .ok () hm

theorem agree_refl {V : α → α → Prop} (hV : ∀ a, V a a) (hT : ∀ e, T.errors e e)
    (r : Except Trouble α) : T.Agree V r r := by
  cases r with
  | ok a => exact .ok (hV a)
  | error t =>
    cases t with
    | error e => exact .error (.error (hT e))
    | fault f => exact .error (.fault f)

theorem twins_times {part part' : Nat → RunOn β Unit} (h : ∀ i, T.Twins (part i) (part' i))
    (index count : Nat) : T.Twins (times part index count) (times part' index count) := by
  induction count generalizing index with
  | zero => exact twins_pure ()
  | succ count ih =>
    exact twins_bind twins_checkStop fun _ => twins_bind (h index) fun _ => ih (index + 1)

end Parts

/-! A name that both contexts take alike. -/
section Names

variable {c c' : Context} {n : Label} (hT : ∀ e, T.errors e e)
include hT

theorem agree_read_label (h : ∀ key, n.key = .ok key → c'.lookup? key = c.lookup? key) :
    T.Agree Eq (c.read n) (c'.read n) := by
  have heq : c'.read n = c.read n := by
    cases hk : n.key with
    | error f =>
      unfold Context.read
      rw [hk]
      rfl
    | ok key => rw [Context.read_eq hk, Context.read_eq hk, h key hk]
  rw [heq]
  exact agree_refl (fun _ => rfl) hT _

omit hT in
theorem agree_declare_label {v : Value} {l : Location}
    (h : ∀ key, n.key = .ok key →
      T.Agree T.contexts ((c.define key v .local false l).mapError .error)
        ((c'.define key v .local false l).mapError .error)) :
    T.Agree T.contexts (c.declare n v l) (c'.declare n v l) := by
  cases hk : n.key with
  | error f =>
    unfold Context.declare
    rw [hk]
    exact .error (.fault f)
  | ok key =>
    rw [Context.declare_eq hk, Context.declare_eq hk]
    exact h key hk

theorem agree_assign_label {v : Value} (hhas : ∀ key, n.key = .ok key → c'.has key = c.has key)
    (h : ∀ key, n.key = .ok key →
      T.Agree T.contexts ((c.set key v).mapError .error) ((c'.set key v).mapError .error)) :
    T.Agree T.contexts (c.assign n v) (c'.assign n v) := by
  cases hk : n.key with
  | error f =>
    unfold Context.assign
    rw [hk]
    exact .error (.fault f)
  | ok key =>
    rw [Context.assign_eq hk, Context.assign_eq hk, hhas key hk]
    by_cases hh : c.has key = true
    · rw [if_pos hh, if_pos hh]
      exact h key hk
    · rw [if_neg hh, if_neg hh]
      exact .error (.error (hT _))

end Names

variable [Port β]

section Laws

variable [T.Lawful]

theorem Foreign.troubles {t t' : Trouble} (h : T.Foreign t t') : T.Troubles t t' := by
  cases h with
  | error h => exact .error (Lawful.foreign h)
  | fault f => exact .fault f

theorem Level.twins {part : RunOn β α} (h : T.Level α part) : T.Twins part part := by
  intro m m' hm
  have he := h hm
  generalize part m = r at he ⊢
  generalize part m' = r' at he ⊢
  cases he with
  | ok a hm => exact .ok a hm
  | trouble ht hm => exact .trouble ht.troubles hm
  | stopped hm => exact .stopped hm

theorem Troubles.locate {t t' : Trouble} (h : T.Troubles t t') {l l' : Location}
    (hl : T.places l l') : T.Troubles (t.locate l) (t'.locate l') := by
  cases h with
  | error h => exact .error (Lawful.located h hl)
  | fault f => exact .fault f

theorem troubles_own {c : Cause} (h : c.own) : T.Troubles c.trouble c.trouble :=
  .error (Lawful.own h)

theorem troubles_locatedAt {c : Cause} (h : c.own) {l l' : Location}
    (hl : T.places l l') :
    T.Troubles (.error (.locatedAt c l)) (.error (.locatedAt c l')) :=
  (troubles_own h).locate hl

theorem Agree.located {V : α → α → Prop} {r r' : Except Trouble α} (h : T.Agree V r r')
    {l l' : Location} (hl : T.places l l') : T.Agree V (located l r) (located l' r') := by
  cases h with
  | ok h => exact .ok h
  | error ht => exact .error (ht.locate hl)

/-- A step that fails only for causes that name no variable. -/
theorem agree_own {r : Except Cause α} (h : ∀ c, r = .error c → c.own) :
    T.Agree Eq (r.mapError Cause.trouble) (r.mapError Cause.trouble) := by
  cases r with
  | ok a => exact .ok rfl
  | error c => exact .error (troubles_own (h c rfl))

theorem twins_locate {part part' : RunOn β α} (hp : T.Twins part part') {l l' : Location}
    (hl : T.places l l') : T.Twins (locate l part) (locate l' part') :=
  fun _ _ h => ends_locate (hp h) fun _ _ ht => ht.locate hl

theorem ends_inScope {part part' : RunOn β α} {m m' : Machine β}
    (he : T.Ends T.Troubles (part { m with context := m.context.enter })
      (part' { m' with context := m'.context.enter })) :
    T.Ends T.Troubles (inScope part m) (inScope part' m') := by
  unfold inScope
  generalize part { m with context := m.context.enter } = r at he ⊢
  generalize part' { m' with context := m'.context.enter } = r' at he ⊢
  cases he with
  | ok a hm => exact .ok a (hm.withContext (Lawful.exit hm.context))
  | trouble ht hm => exact .trouble ht (hm.withContext (Lawful.exit hm.context))
  | stopped hm => exact .stopped (hm.withContext (Lawful.exit hm.context))

theorem twins_inScope {part part' : RunOn β α} (hp : T.Twins part part') :
    T.Twins (inScope part) (inScope part') :=
  fun _ _ hm => ends_inScope (hp (hm.withContext (Lawful.enter hm.context)))

theorem twins_log (level : LogLevel) (text : String) :
    T.Twins (Run.log level text) (Run.log level text) := fun _ _ hm => .ok () (hm.log level text)

/-- A line of the log that may tell the place of a statement. -/
theorem twins_tell (level : LogLevel) (text : Location → String) {l l' : Location}
    (hl : T.places l l') : T.Twins (Run.log level (text l)) (Run.log level (text l')) := by
  refine twins_modify fun m m' hm => ?_
  obtain ⟨hb, hc, ho⟩ := hm
  exact ⟨hb, hc, Lawful.tell (fun l => .log level m.clock (text l)) ho hl⟩

end Laws

section Expressions

variable [T.Lawful]

theorem agree_noValue {tree tree' : Json} (h : tree.Match T.places tree') :
    T.Troubles tree.noValue tree'.noValue := by
  unfold Json.noValue
  cases h with
  | datum h =>
    rw [h]
    exact .fault _
  | node h h' hk hl =>
    rw [h, h', hk]
    exact troubles_locatedAt rfl hl

theorem agree_eval {e e' : Expr} (h : e.Match T.places T.labels e') {c c' : Context}
    (hc : T.contexts c c') : T.Agree Eq (e.eval c) (e'.eval c') := by
  induction h with
  | number _ x => exact .ok rfl
  | string _ s => exact .ok rfl
  | boolean _ b => exact .ok rfl
  | reference hl hn => exact (Lawful.read hc hn).located hl
  | binary hl op _ _ iha ihb =>
    refine Agree.located (iha.bind fun a => ihb.bind fun b => ?_) hl
    exact agree_own fun _ he => BinaryOp.own_of_apply he
  | unary hl op _ ih =>
    refine Agree.located (ih.bind fun a => ?_) hl
    exact agree_own fun _ he => UnaryOp.own_of_apply he
  | misfit h => exact .error (agree_noValue h)

theorem twins_evaluate {e e' : Expr} (h : e.Match T.places T.labels e') :
    T.Twins (evaluate e) (evaluate e') :=
  fun _ _ hm => ends_lift (agree_eval h hm.context) hm

/-- What is done with the value of an expression may tell the place of the expression. -/
theorem twins_subject {e e' : Expr} (h : e.Match T.places T.labels e') {f f' : Value → RunOn β α}
    (hf : T.places e.loc e'.loc → ∀ v, T.Twins (f v) (f' v)) :
    T.Twins (evaluate e >>= f) (evaluate e' >>= f') := by
  have placed : T.places e.loc e'.loc → T.Twins (evaluate e >>= f) (evaluate e' >>= f') :=
    fun hl => twins_bind (twins_evaluate h) (hf hl)
  cases h with
  | number hl => exact placed hl
  | string hl => exact placed hl
  | boolean hl => exact placed hl
  | reference hl => exact placed hl
  | binary hl => exact placed hl
  | unary hl => exact placed hl
  | misfit h => exact fun _ _ hm => .trouble (agree_noValue h) hm

end Expressions

section Commands

variable [T.Lawful] {e e' : Expr}

theorem twins_argumentText (h : e.Match T.places T.labels e') :
    T.Twins (argumentText e) (argumentText e') :=
  twins_bind (twins_evaluate h) fun v => twins_pure v.text

theorem twins_coordinate (command : String) (h : e.Match T.places T.labels e') :
    T.Twins (coordinate command e) (coordinate command e') := by
  refine twins_subject h fun hl v => ?_
  cases v with
  | number x => exact twins_pure x
  | _ => exact twins_fail (troubles_locatedAt rfl hl)

theorem twins_point (command : String) {x x' y y' z z' : Expr}
    (hx : x.Match T.places T.labels x') (hy : y.Match T.places T.labels y')
    (hz : z.Match T.places T.labels z') :
    T.Twins (point command x y z) (point command x' y' z') :=
  twins_bind (twins_coordinate command hx) fun x =>
    twins_bind (twins_coordinate command hy) fun y =>
      twins_bind (twins_coordinate command hz) fun z => twins_pure (⟨x, y, z⟩ : Point)

theorem twins_dropCount {count count' : Option Expr}
    (h : Option.Rel (Expr.Match T.places T.labels) count count') :
    T.Twins (dropCount count) (dropCount count') := by
  cases h with
  | none => exact twins_pure 1
  | some h =>
    refine twins_subject h fun hl v => ?_
    cases v with
    | number x =>
      dsimp only
      split
      · exact twins_pure _
      · exact twins_fail (troubles_locatedAt rfl hl)
    | _ => exact twins_fail (troubles_locatedAt rfl hl)

theorem twins_wait (h : e.Match T.places T.labels e') : T.Twins (wait e) (wait e') := by
  refine twins_subject h fun hl v => ?_
  cases v with
  | number x =>
    dsimp only
    split
    · exact (law_sleep (P := T.Level) x).twins
    · exact twins_fail (troubles_locatedAt rfl hl)
  | _ => exact twins_fail (troubles_locatedAt rfl hl)

theorem twins_dig {kind kind' : Option Expr}
    (h : Option.Rel (Expr.Match T.places T.labels) kind kind') :
    T.Twins (dig kind) (dig kind') := by
  refine twins_bind ?_ fun kind => (law_digNearest (P := T.Level) kind).twins
  cases h with
  | none => exact twins_pure none
  | some h => exact twins_bind (twins_argumentText h) fun text => twins_pure (some text)

theorem twins_place {x x' y y' z z' : Option Expr} (hi : e.Match T.places T.labels e')
    (hx : Option.Rel (Expr.Match T.places T.labels) x x')
    (hy : Option.Rel (Expr.Match T.places T.labels) y y')
    (hz : Option.Rel (Expr.Match T.places T.labels) z z') :
    T.Twins (place e x y z) (place e' x' y' z') := by
  refine twins_bind (twins_argumentText hi) fun name => ?_
  have nowhere : T.Twins (placeNamed name none : RunOn β CommandResult) (placeNamed name none) :=
    (law_placeNamed (P := T.Level) name none).twins
  cases hx with
  | none => exact nowhere
  | some hx =>
    cases hy with
    | none => exact nowhere
    | some hy =>
      cases hz with
      | none => exact nowhere
      | some hz =>
        exact twins_bind (twins_point "PLACE" hx hy hz) fun p =>
          (law_placeNamed (P := T.Level) name (some p)).twins

theorem twins_carryOut {c c' : Command} (h : c.Match T.places T.labels c') :
    T.Twins (carryOut c) (carryOut c') := by
  cases h with
  | say _ _ h =>
    exact twins_bind (twins_argumentText h) fun text => (law_sayText (P := T.Level) text).twins
  | goto _ _ hx hy hz =>
    exact twins_bind (twins_point "GOTO" hx hy hz) fun p =>
      (law_travelTo (P := T.Level) p).twins
  | attack _ _ h =>
    exact twins_bind (twins_argumentText h) fun name =>
      (law_attackNamed (P := T.Level) name).twins
  | dig _ _ h => exact twins_dig h
  | place _ _ hi hx hy hz => exact twins_place hi hx hy hz
  | equip _ _ h =>
    exact twins_bind (twins_argumentText h) fun name =>
      (law_equipNamed (P := T.Level) name).twins
  | drop _ _ hi hc =>
    exact twins_bind (twins_argumentText hi) fun name =>
      twins_bind (twins_dropCount hc) fun wanted =>
        (law_dropNamed (P := T.Level) name wanted).twins
  | wait _ _ h => exact twins_wait h
  | misfit h =>
    unfold carryOut
    dsimp only
    rw [h.nodeKind_eq]
    exact twins_fail (troubles_own rfl)

/-- A command turns faults into failures and measures its time, both alike on tied machines. -/
theorem twins_command {c c' : Command} (h : c.Match T.places T.labels c') :
    T.Twins (command c) (command c') := by
  intro m m' hm
  have hclock : ∀ {m m' : Machine β}, T.Machines m m' → m'.clock = m.clock := by
    intro m m' h
    obtain ⟨hb, hc, ho⟩ := h
    rfl
  have measured : ∀ (result : CommandResult) {m₁ m₁' : Machine β}, T.Machines m₁ m₁' →
      T.Ends T.Troubles
        (.ok { result with duration := (m₁.clock - m.clock) * 1000 } m₁)
        (.ok { result with duration := (m₁'.clock - m'.clock) * 1000 } m₁') := by
    intro result m₁ m₁' hm₁
    rw [hclock hm, hclock hm₁]
    exact .ok _ hm₁
  have hc := twins_carryOut h hm
  change T.Ends T.Troubles ((attempt (carryOut c) >>= _) m) ((attempt (carryOut c') >>= _) m')
  cases hr : carryOut c m with
  | ok result m₁ =>
    cases hr' : carryOut c' m' with
    | ok result' m₁' =>
      rw [bind_of_ok (attempt_of_ok hr), bind_of_ok (attempt_of_ok hr')]
      rw [hr, hr'] at hc
      cases hc with
      | ok _ hm₁ => exact measured result hm₁
    | error halt m₁' =>
      rw [hr, hr'] at hc
      cases hc
  | error halt m₁ =>
    cases hr' : carryOut c' m' with
    | ok result' m₁' =>
      rw [hr, hr'] at hc
      cases hc
    | error halt' m₁' =>
      rw [hr, hr'] at hc
      cases hc with
      | stopped hm₁ =>
        rw [bind_of_error (attempt_of_stopped hr), bind_of_error (attempt_of_stopped hr')]
        exact .stopped hm₁
      | trouble ht hm₁ =>
        rw [bind_of_ok (attempt_of_trouble hr), bind_of_ok (attempt_of_trouble hr')]
        cases ht with
        | error he => exact .trouble (.error he) hm₁
        | fault f => exact measured _ hm₁

end Commands

section Parts

variable [T.Lawful] {l l' : Location}

theorem twins_counted (hl : T.places l l') (kind : String) {part part' : RunOn β Unit}
    (hp : T.Twins part part') : T.Twins (counted l kind part) (counted l' kind part') := by
  refine twins_bind (twins_tell .debug (fun l => "line " ++ toString l.line ++ ": " ++ kind) hl)
    fun _ => twins_bind (twins_locate hp hl) fun _ => ?_
  exact twins_changeContext fun _ _ hc => .ok (Lawful.countStatement hc)

theorem twins_conclude (hl : T.places l l') (result : CommandResult) :
    T.Twins (conclude l result : RunOn β Unit) (conclude l' result) := by
  refine twins_bind (twins_modify fun m m' hm => ?_) fun _ => ?_
  · obtain ⟨hb, hc, ho⟩ := hm
    exact ⟨hb, Lawful.countCommand hc, ho⟩
  · split
    · exact twins_log _ _
    · refine twins_bind (twins_tell .warning (fun l =>
        "Command failed at line " ++ toString l.line ++ ": " ++ result.message) hl) fun _ => ?_
      exact twins_fail (troubles_own rfl)

theorem twins_iteration {body body' : RunOn β Unit} (h : T.Twins body body') (index : Nat) :
    T.Twins (iteration body index) (iteration body' index) := by
  intro m m' hm
  have hentered := hm.withContext (Lawful.enter hm.context)
  refine ends_inScope (ends_bind ?_ fun _ _ _ hm => h hm)
  exact ends_changeContext hentered (Lawful.index _ hm.context)

theorem twins_strayStatement {tree tree' : Json} (h : tree.Match T.places tree') :
    T.Twins (strayStatement tree : RunOn β Unit) (strayStatement tree') := by
  unfold strayStatement
  cases h with
  | datum h =>
    rw [h]
    exact twins_fail (.fault _)
  | node h h' hk hl =>
    rw [h, h', hk]
    exact twins_counted hl _ (twins_fail (troubles_own rfl))

theorem twins_strayBody {tree tree' : Json} (h : tree.Match T.places tree') :
    T.Twins (strayBody tree : RunOn β Unit) (strayBody tree') := by
  cases h with
  | datum h =>
    unfold strayBody
    split
    · exact twins_pure ()
    · exact twins_bind twins_checkStop fun _ => twins_strayStatement (.datum h)
    · exact twins_fail (.fault _)
  | node h h' hk hl =>
    obtain ⟨fields, rfl⟩ := Json.exists_fields h
    obtain ⟨fields', rfl⟩ := Json.exists_fields h'
    unfold strayBody
    dsimp only
    rw [hk]
    exact twins_fail (.fault _)

end Parts

mutual

/-- One case for each kind of statement. -/
theorem twins_statement [T.Lawful] : (s s' : Stmt) → s.Match T.places T.labels s' →
    T.Twins (statement s) (statement s')
  | .declare l name init, _, h => by
    cases h with
    | declare hl hn he =>
      refine twins_counted hl _ (twins_bind (twins_evaluate he) fun v => ?_)
      exact twins_changeContext fun _ _ hc => Lawful.declare v hc hn hl
  | .assign l name value, _, h => by
    cases h with
    | assign hl hn he =>
      refine twins_counted hl _ (twins_bind (twins_evaluate he) fun v => ?_)
      exact twins_changeContext fun _ _ hc => Lawful.assign v hc hn
  | .branch l condition yes no, _, h => by
    cases h with
    | branch hl he hy hn =>
      have hyes := twins_chosen yes _ hy
      have hno := twins_otherwise no _ hn
      refine twins_counted hl _ (twins_bind (twins_evaluate he) fun v => twins_inScope ?_)
      split
      · exact hyes
      · exact hno
  | .loop l count body, _, h => by
    cases h with
    | loop hl he hb =>
      have hbody := twins_block body _ hb
      refine twins_counted hl _ (twins_bind (twins_evaluate he) fun v => twins_bind ?_ fun n => ?_)
      · exact fun _ _ hm => ends_lift (agree_own fun _ hc => own_of_repetitions hc) hm
      · exact twins_times (fun i => twins_iteration hbody i) 0 n
  | .command l c, _, h => by
    cases h with
    | command hl hc =>
      exact twins_counted hl _ (twins_bind (twins_command hc) fun result =>
        twins_conclude hl result)
  | .evaluate l e, _, h => by
    cases h with
    | evaluate hl he =>
      exact twins_counted hl _ (twins_bind (twins_evaluate he) fun _ => twins_pure ())
  | .misfit tree, _, h => by
    cases h with
    | misfit h => exact twins_strayStatement h

theorem twins_block [T.Lawful] : (b b' : Body) → b.Match T.places T.labels b' →
    T.Twins (block b) (block b')
  | .statements list, _, h => by
    cases h with
    | statements h => exact twins_statements list _ h
  | .misfit tree, _, h => by
    cases h with
    | misfit h => exact twins_strayBody h

theorem twins_chosen [T.Lawful] : (b b' : Body) → b.Match T.places T.labels b' →
    T.Twins (chosen b) (chosen b')
  | .statements list, _, h => by
    cases h with
    | statements h => exact twins_statements list _ h
  | .misfit tree, _, h => by
    cases h with
    | misfit h =>
      have hstray := twins_strayBody h
      cases h with
      | datum h =>
        unfold chosen
        split
        · next he => cases he
        · exact twins_pure ()
        · next he =>
          cases he
          exact hstray
      | node h h' hk hl =>
        obtain ⟨fields, rfl⟩ := Json.exists_fields h
        obtain ⟨fields', rfl⟩ := Json.exists_fields h'
        exact hstray

theorem twins_otherwise [T.Lawful] : (no no' : Option Body) →
    Option.Rel (Body.Match T.places T.labels) no no' → T.Twins (otherwise no) (otherwise no')
  | none, _, h => by
    cases h with
    | none => exact twins_pure ()
  | some body, _, h => by
    cases h with
    | some h => exact twins_chosen body _ h

theorem twins_statements [T.Lawful] : (list list' : List Stmt) →
    List.Forall₂ (Stmt.Match T.places T.labels) list list' →
    T.Twins (statements list) (statements list')
  | [], _, h => by
    cases h with
    | nil => exact twins_pure ()
  | s :: rest, _, h => by
    cases h with
    | cons hs hrest =>
      have hstatement := twins_statement s _ hs
      have hstatements := twins_statements rest _ hrest
      exact twins_bind twins_checkStop fun _ => twins_bind hstatement fun _ => hstatements

end

/-- A tie that holds over whole runs. It says nothing of lines of output. -/
class Throughout (T : Tie β) : Prop extends Lawful T where
  outputs : ∀ lines lines', T.outputs lines lines'
  showing : ∀ {c c' : Context} {shown : List (String × Value)} (now : Float), T.contexts c c' →
    (∀ x ∈ shown, x.1 ∈ readingNames) →
    T.contexts (c.showing shown now) (c'.showing shown now)
  markStart : ∀ {c c' : Context} (now : Float), T.contexts c c' →
    T.contexts (c.markStart now) (c'.markStart now)
  markComplete : ∀ {c c' : Context} (now : Float), T.contexts c c' →
    T.contexts (c.markComplete now) (c'.markComplete now)
  recordError : ∀ {c c' : Context} {e e' : ScriptError}, T.contexts c c' → T.errors e e' →
    T.contexts (c.recordError e.text) (c'.recordError e'.text)
  settle : ∀ {b b' : β} {e e' : ScriptError}, T.bots b b' → T.errors e e' →
    T.bots (Port.settle e b) (Port.settle e' b')

/-- Two runs come to the same, or to errors that go together. -/
inductive Outcomes (T : Tie β) (m m' : Machine β) (p p' : Program) : Prop
  | same (h : ∀ text, (m.execute p).1 ≠ .ok (.error text))
    (he : (m'.execute p').1 = (m.execute p).1) : Outcomes T m m' p p'
  | error {e e' : ScriptError} (h : m.Raises p e) (h' : m'.Raises p' e') (he : T.errors e e') :
    Outcomes T m m' p p'

theorem Ends.outcomes {m m' m₀ m₀' : Machine β} {p p' : Program} {b b' : Body}
    (h : T.Ends T.Troubles (program b m₀) (program b' m₀')) (hm : m.Begins p m₀ b)
    (hm' : m'.Begins p' m₀' b') : T.Outcomes m m' p p' := by
  have same : (∀ text, (Machine.ended (program b m₀)).1 ≠ .ok (.error text)) →
      (Machine.ended (program b' m₀')).1 = (Machine.ended (program b m₀)).1 →
      T.Outcomes m m' p p' := by
    intro hne he
    refine .same (fun text => ?_) ?_
    · rw [hm.execute_eq]
      exact hne text
    · rw [hm.execute_eq, hm'.execute_eq]
      exact he
  cases hr : program b m₀ with
  | ok u m₁ =>
    cases hr' : program b' m₀' with
    | ok u' m₁' =>
      rw [hr, hr'] at same
      exact same (fun _ he => nomatch he) rfl
    | error halt' m₁' =>
      rw [hr, hr'] at h
      cases h
  | error halt m₁ =>
    cases hr' : program b' m₀' with
    | ok u' m₁' =>
      rw [hr, hr'] at h
      cases h
    | error halt' m₁' =>
      rw [hr, hr'] at h same
      cases h with
      | stopped _ => exact same (fun _ he => nomatch he) rfl
      | trouble ht _ =>
        cases ht with
        | fault f => exact same (fun _ he => nomatch he) rfl
        | error he => exact .error ⟨m₀, b, m₁, hm, hr⟩ ⟨m₀', b', m₁', hm', hr'⟩ he

/-- Outcomes are the same where errors are. -/
theorem Outcomes.eq {m m' : Machine β} {p p' : Program} (h : T.Outcomes m m' p p')
    (hT : ∀ {e e'}, T.errors e e' → e' = e) : (m'.execute p').1 = (m.execute p).1 := by
  cases h with
  | same _ he => exact he
  | error h h' he => rw [h.outcome, h'.outcome, hT he]

section Runs

variable [T.Throughout]

theorem level_update (s : Option Snapshot) (now : Float) :
    T.Level Unit (changeContext fun c => (c.update s now).mapError .fault) := by
  intro m m' hm
  rw [changeContext_apply, changeContext_apply]
  cases s with
  | none =>
    rw [Context.update_none, Context.update_none]
    exact .ok () (hm.withContext (Throughout.showing now hm.context fun _ hx => nomatch hx))
  | some s =>
    rw [Context.update_some, Context.update_some]
    cases hs : s.toVariables with
    | error f => exact .trouble (.fault f) hm
    | ok shown =>
      have hnames : ∀ x ∈ shown, x.1 ∈ readingNames :=
        fun _ hx => Snapshot.names_toVariables hs hx
      exact .ok () (hm.withContext (Throughout.showing now hm.context hnames))

theorem twins_program {b b' : Body} (h : b.Match T.places T.labels b') :
    T.Twins (program b) (program b') :=
  twins_bind (law_refresh (P := T.Level) level_update).twins fun _ => twins_block b b' h

theorem Ends.ended {r r' : EStateM.Result Halt (Machine β) Unit} (h : T.Ends T.Troubles r r') :
    T.Machines (Machine.ended r).2 (Machine.ended r').2 := by
  cases h with
  | ok _ hm =>
    obtain ⟨hb, hc, ho⟩ := hm
    exact ⟨hb, Throughout.markComplete _ hc, Throughout.outputs _ _⟩
  | stopped hm =>
    obtain ⟨hb, hc, ho⟩ := hm
    exact ⟨hb, Throughout.markComplete _ hc, Throughout.outputs _ _⟩
  | trouble ht hm =>
    obtain ⟨hb, hc, ho⟩ := hm
    cases ht with
    | fault f => exact ⟨hb, hc, Throughout.outputs _ _⟩
    | error he =>
      refine ⟨Throughout.settle hb he, ?_, Throughout.outputs _ _⟩
      exact Throughout.markComplete _ (Throughout.recordError hc he)

theorem Machines.begin {m m' : Machine β} (h : T.Machines m m') :
    (∃ f, m.begin = .error f ∧ m'.begin = .error f) ∨
    ∃ m₀ m₀', m.begin = .ok m₀ ∧ m'.begin = .ok m₀' ∧ T.Machines m₀ m₀' := by
  obtain ⟨hb, hc, ho⟩ := h
  by_cases hr : m.running = true
  · exact .inl ⟨_, if_pos hr, if_pos hr⟩
  · exact .inr ⟨_, _, if_neg hr, if_neg hr, hb, Throughout.markStart m.now hc, ho⟩

/-- Programs that match leave tied machines tied and come to outcomes that go together, whatever
becomes of them. -/
theorem execute_twins {p p' : Program} (h : p.Match T.places T.labels p') {m m' : Machine β}
    (hm : T.Machines m m') :
    T.Outcomes m m' p p' ∧ T.Machines (m.execute p).2 (m'.execute p').2 := by
  have broken : ∀ {f : Fault} {n n' : Machine β}, m.execute p = (.error f, n) →
      m'.execute p' = (.error f, n') → T.Machines n n' →
      T.Outcomes m m' p p' ∧ T.Machines (m.execute p).2 (m'.execute p').2 := by
    intro f n n' hn hn' hm
    rw [hn, hn']
    refine ⟨.same (fun text ht => ?_) ?_, hm⟩
    · rw [hn] at ht
      cases ht
    · rw [hn, hn']
  rcases hm.begin with ⟨f, hr, hr'⟩ | ⟨m₀, m₀', hr, hr', hm₀⟩
  · refine broken (f := f) ?_ ?_ hm
    · rw [Machine.execute, hr]
    · rw [Machine.execute, hr']
  · have hsize := h.size_eq
    cases h with
    | @misfit tree tree' ht =>
      refine broken (f := .noAttribute tree.nodeKind "statements") ?_ ?_ hm₀
      · rw [Machine.execute, hr]
        rfl
      · rw [Machine.execute, hr', ← ht.nodeKind_eq]
        rfl
    | @program l l' body body' hbody =>
      cases hn : (Program.program l body).size with
      | error f =>
        refine broken (f := f) ?_ ?_ hm₀
        · rw [Machine.execute, hr, hn]
          rfl
        · rw [Machine.execute, hr', hsize, hn]
          rfl
      | ok n =>
        have hbegins := Machine.Begins.intro hr (p := .program l body) rfl hn
        have hbegins' := Machine.Begins.intro hr' (p := .program l' body') rfl (hsize.trans hn)
        have hends := twins_program hbody
          (hm₀.log .info ("Executing program with " ++ toString n ++ " statements"))
        refine ⟨hends.outcomes hbegins hbegins', ?_⟩
        rw [hbegins.execute_eq, hbegins'.execute_eq]
        exact hends.ended

end Runs

end Tie

end AgentScript

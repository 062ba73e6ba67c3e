import AgentScript.Proofs.Bot.Tame
import AgentScript.Proofs.Machine.Position
import AgentScript.Proofs.Machine.Stop
import AgentScript.Proofs.Syntax.Places

/-! How runs of sources end: whatever goes wrong on the way, a run on an idle machine comes to an
outcome and leaves the machine idle, and an error points at a token of the source. -/
namespace AgentScript

variable {β : Type} {P : Location → Prop}

namespace Blame

/-- The place that the message names has a property. -/
def Points (P : Location → Prop) (b : Blame) : Prop := ∃ l, P l ∧ b.place? = some l.mark

theorem points_head {cause : Cause} {l : Location} {rest : List Mark} (hl : 0 < l.line) (h : P l) :
    Points P ⟨cause, l.mark :: rest⟩ := by
  refine ⟨l, h, ?_⟩
  rw [place?, List.find?_cons_of_pos]
  exact decide_eq_true hl

theorem Points.within {b : Blame} (h : b.Points P) (l : Location) : (b.within l).Points P := by
  obtain ⟨l', hl, hp⟩ := h
  refine ⟨l', hl, ?_⟩
  rw [place?] at hp
  rw [place?, Blame.within, List.find?_append, hp, Option.some_or]

theorem Points.text {b : Blame} (h : b.Points P) : ∃ l, P l ∧
    b.text = "Execution error at line " ++ toString l.line ++ ", column " ++ toString l.column
      ++ ": " ++ b.cause.message := by
  obtain ⟨l, hl, hp⟩ := h
  refine ⟨l, hl, ?_⟩
  rw [Blame.text, hp]
  rfl

end Blame

section Points

variable (hP : ∀ l, P l → 0 < l.line ∧ 0 < l.column)
include hP

theorem Blame.points_on {l : Location} (h : P l) (cause : Cause) : (Blame.on cause l).Points P :=
  points_head (hP l h).1 h

theorem Expr.Fails.points {c : Context} {e : Expr} {b : Blame} (h : e.Fails c b)
    (ho : e.Over P) : b.Points P := by
  induction h with
  | undefined => exact Blame.points_on hP ho.loc _
  | @left l op left right _ _ ih =>
    cases ho with
    | binary _ _ ha _ => exact (ih ha).within l
  | @right l op left right _ _ _ _ ih =>
    cases ho with
    | binary _ _ _ hb => exact (ih hb).within l
  | operator => exact Blame.points_on hP ho.loc _
  | @operand l op operand _ _ ih =>
    cases ho with
    | unary _ _ h => exact (ih h).within l
  | sign => exact Blame.points_on hP ho.loc _

theorem Command.Fails.points {c : Context} {command : Command} {b : Blame}
    (h : command.Fails c b) (hc : command.Over P) : b.Points P := by
  obtain ⟨hd, -, hf⟩ := h
  have ho := hc.arguments _ (Command.argument_mem hd)
  cases hf with
  | argument h => exact h.points hP ho
  | refused => exact Blame.points_on hP ho.loc _

end Points

theorem Stmt.Over.loc {s : Stmt} (h : s.Over P) : P s.loc := by
  cases h with
  | declare hl => exact hl
  | assign hl => exact hl
  | branch hl => exact hl
  | loop hl => exact hl
  | command hl => exact hl
  | evaluate hl => exact hl

theorem Stmt.Over.subject {s : Stmt} (h : s.Over P) {e : Expr} (he : s.subject? = some e) :
    e.Over P := by
  cases h with
  | declare _ _ ho => cases he; exact ho
  | assign _ _ ho => cases he; exact ho
  | branch _ ho => cases he; exact ho
  | loop _ ho => cases he; exact ho
  | command => cases he
  | evaluate _ ho => cases he; exact ho

namespace Run

variable [Port β]

theorem Arrives.mem {list : List Stmt} {s : Stmt} {m m' : Machine β}
    (h : Arrives list m s m') : s ∈ list := by
  induction h with
  | first => exact List.mem_cons_self
  | next _ _ _ ih => exact List.mem_cons_of_mem _ ih

theorem Opens.over {s : Stmt} {inner : List Stmt} {m m' : Machine β} (h : Opens s m inner m')
    (hs : s.Over P) : ∀ t ∈ inner, t.Over P := by
  cases h with
  | yes =>
    cases hs with
    | branch _ _ hy _ =>
      cases hy with
      | statements h => exact h
  | no =>
    cases hs with
    | branch _ _ _ hn =>
      cases hn _ rfl with
      | statements h => exact h
  | iteration =>
    cases hs with
    | loop _ _ hb =>
      cases hb with
      | statements h => exact h

/-- Blame never falls outside of the places of a tree. -/
theorem Fails.points (hP : ∀ l, P l → 0 < l.line ∧ 0 < l.column) {s : Stmt} {m : Machine β}
    {b : Blame} (h : Fails s m b) (ho : s.Over P) : b.Points P := by
  induction h with
  | subject hs h => exact (h.points hP (ho.subject hs)).within _
  | @defined loc name e m v binding hv hb hr =>
    have hmark : loc.refusalMark = loc.mark := by
      rw [Location.refusalMark, if_neg (Int.ne_of_gt (hP loc ho.loc).2)]
      rfl
    rw [hmark]
    exact Blame.points_head (hP loc ho.loc).1 ho.loc
  | undefined => exact Blame.points_on hP ho.loc _
  | readonly => exact Blame.points_on hP ho.loc _
  | count => exact Blame.points_on hP ho.loc _
  | argument h =>
    cases ho with
    | command _ hc => exact (h.points hP hc).within _
  | command => exact Blame.points_on hP ho.loc _
  | block hopen ha _ ih => exact (ih (hopen.over ho _ ha.mem)).within _

end Run

namespace Snapshot

theorem exists_valueOf {v : Json} (h : v.Plain) : ∃ r, valueOf v = .ok r := by
  cases h with
  | null => exact ⟨_, rfl⟩
  | bool b => exact ⟨_, rfl⟩
  | @int n x h =>
    refine ⟨some (.number x), ?_⟩
    rw [valueOf, Json.toFloat, h]
    · rfl
    all_goals exact nofun
  | real x => exact ⟨_, rfl⟩
  | str s => exact ⟨_, rfl⟩

theorem exists_toVariables {s : Snapshot} (h : ∀ g, (s.reading g).Plain) :
    ∃ shown, s.toVariables = .ok shown := by
  have read : ∀ g, ∃ named, (do return (g.variableName, ← valueOf (s.reading g)) :
      Except Fault (String × Option Value)) = .ok named := by
    intro g
    obtain ⟨r, hr⟩ := exists_valueOf (h g)
    exact ⟨(g.variableName, r), by rw [hr]; rfl⟩
  obtain ⟨values, hv⟩ := exists_mapM read Gauge.all
  rw [toVariables, hv]
  exact ⟨_, rfl⟩

theorem plain_ofPanels {shown : Panel → Gauge → Json} (h : ∀ panel g, (shown panel g).Plain)
    (g : Gauge) : ((ofPanels shown).reading g).Plain := by
  unfold ofPanels
  dsimp only
  split
  · exact .str _
  · exact h _ g

end Snapshot

theorem Context.exists_update {s : Snapshot} (h : ∀ g, (s.reading g).Plain) (c : Context)
    (now : Float) : ∃ c', c.update (some s) now = .ok c' := by
  obtain ⟨shown, hs⟩ := Snapshot.exists_toVariables h
  cases hu : c.update (some s) now with
  | ok c' => exact ⟨c', rfl⟩
  | error f =>
    unfold update at hu
    dsimp only at hu
    rw [hs] at hu
    cases hu

namespace Run

variable [Port β]

theorem readGauges_plain [PlainPort β] :
    Returns (fun s => ∀ g, (s.reading g).Plain) (readGauges : RunOn β Snapshot) := by
  refine .bind (PlainPort.plain _) fun vitals hv => .bind (PlainPort.plain _) fun _ he => ?_
  refine .bind (PlainPort.plain _) fun inventory hi => .bind (PlainPort.plain _) fun _ hf => ?_
  refine .bind (PlainPort.plain _) fun _ hn => .bind (PlainPort.plain _) fun _ hh => ?_
  refine .bind (PlainPort.plain _) fun _ hl => returns_pure (Snapshot.plain_ofPanels ?_)
  intro panel
  cases panel with
  | vitals => exact hv
  | environment => exact he
  | inventory => exact hi
  | isFull => exact hf
  | needsToEat => exact hn
  | healthLow => exact hh
  | hungerLow => exact hl

/-- Readings never break a run off: refused ones are kept from before, and plain ones have values. -/
theorem refresh_ends [LawfulPort β] [PlainPort β] (m : Machine β) :
    ∃ m', refresh m = .ok () m' := by
  cases hr : readGauges m with
  | ok s m₁ =>
    obtain ⟨c, hc⟩ := Context.exists_update (readGauges_plain m s m₁ hr) m₁.context m₁.now
    refine ⟨{ m₁ with context := c }, (refresh_of_read hr).trans (changeContext_ok ?_)⟩
    rw [hc]
    rfl
  | error halt m₁ =>
    cases halt with
    | stopped => exact (law_readGauges (P := fun _ => Lasts) m m₁ hr).elim
    | trouble t => exact ⟨_, (refresh_of_trouble hr).trans (changeContext_ok rfl)⟩

end Run

namespace Outcome

def phase : Outcome → Phase
  | success => .completed
  | error _ => .failed
  | stopped => .stopped

def report : Outcome → List String
  | error message => [message]
  | success | stopped => []

/-- What a run adds to the errors on record, which is nothing if a fault breaks it off. -/
def recorded (r : Except Fault Outcome) : List String := (r.toOption.map report).getD []

end Outcome

namespace Machine

/-- The errors on record are those of before, and the one that a run ended with. -/
theorem execute_errors [Port β] [LawfulPort β] (m : Machine β) (p : Program) :
    (m.execute p).2.context.stats.errors =
      m.context.stats.errors ++ Outcome.recorded (m.execute p).1 := by
  have unchanged : ∀ {f : Fault} {m' : Machine β}, m.execute p = (.error f, m') →
      m'.context.stats.errors = m.context.stats.errors →
      (m.execute p).2.context.stats.errors =
        m.context.stats.errors ++ Outcome.recorded (m.execute p).1 := by
    intro f m' he h
    rw [he]
    exact h.trans (List.append_nil _).symm
  cases hb : m.begin with
  | error f => exact unchanged (by rw [execute, hb]) rfl
  | ok m₀ =>
    have hmarked : m₀.context.stats.errors = m.context.stats.errors := by
      rw [begin_eq hb]
      rfl
    cases hbody : p.body with
    | error f => exact unchanged (by rw [execute, hb, hbody]) hmarked
    | ok body =>
      cases hn : p.size with
      | error f => exact unchanged (by rw [execute, hb, hbody, hn]) hmarked
      | ok n =>
        rw [(Begins.intro hb hbody hn).execute_eq, runBody]
        generalize hm₁ : m₀.log .info _ = m₁
        have hkept := Run.program_errors m₁ body
        rw [show m₁.context.stats.errors = m.context.stats.errors by rw [← hm₁]; exact hmarked]
          at hkept
        cases hr : Run.program body m₁ with
        | ok u m' =>
          rw [Run.after_of_ok hr] at hkept
          exact hkept.trans (List.append_nil _).symm
        | error halt m' =>
          rw [Run.after_of_error hr] at hkept
          cases halt with
          | stopped => exact hkept.trans (List.append_nil _).symm
          | trouble t =>
            cases t with
            | fault f => exact hkept.trans (List.append_nil _).symm
            | error e => exact congrArg (· ++ [e.text]) hkept

/-- How a machine is left by a run of a source with some outcome. -/
structure Settled (source : String) (m m' : Machine β) (outcome : Outcome) : Prop where
  idle : m'.running = false
  finish : m'.context.stats.finish = some m'.now
  phase : m'.phase = outcome.phase
  errors : m'.context.stats.errors = m.context.stats.errors ++ outcome.report
  placed : ∀ message ∈ outcome.report, ∃ (l : Location) (text : String), l.InSource source ∧
    message = "Execution error at line " ++ toString l.line ++ ", column " ++ toString l.column
      ++ ": " ++ text

/-- A proper program begins on an idle machine. -/
theorem exists_begins [Port β] {p : Program} (hp : p.Over P) {m : Machine β}
    (hm : m.running = false) :
    ∃ m₀ list, m.Begins p m₀ (.statements list) ∧
      m₀.context.stats.errors = m.context.stats.errors := by
  have hb : m.begin = .ok { m with
      running := true
      stopRequested := false
      phase := .running
      context := m.context.markStart m.now } := by
    rw [begin, hm]
    rfl
  cases hp with
  | program loc ho =>
    cases ho with
    | statements hs => exact ⟨_, _, ⟨hb, rfl, rfl⟩, rfl⟩

end Machine

/-- A run of a source on an idle machine, with a bot whose instruments show plain data and which may
fail in any other way whenever it is asked for something, comes to its end, to a stop or to an error.
The machine is idle again, the time of the end is on record, and so is the error, which points at a
token of the source. -/
theorem execute_settles [Port β] [HostPort β] [PlainPort β] {source : String} {p : Program}
    (hp : Program.ofSource source = .ok p) {m : Machine β} (hm : m.running = false) :
    ∃ outcome, (m.execute p).1 = .ok outcome ∧ m.Settled source (m.execute p).2 outcome := by
  have ho := Program.over_source hp
  obtain ⟨m₀, list, hbegins, herrors⟩ := m.exists_begins ho hm
  obtain ⟨_, hl, hs⟩ := hbegins.statements ho
  cases hl
  rw [hbegins.execute_eq, Machine.runBody]
  have hkept := Run.program_errors m₀ (.statements list)
  rw [herrors] at hkept
  cases hr : Run.program (.statements list) m₀ with
  | ok u m' =>
    rw [Run.after_of_ok hr] at hkept
    refine ⟨.success, rfl, rfl, rfl, rfl, ?_, fun _ hm => (List.not_mem_nil hm).elim⟩
    exact hkept.trans (List.append_nil _).symm
  | error halt m' =>
    rw [Run.after_of_error hr] at hkept
    cases halt with
    | stopped =>
      refine ⟨.stopped, rfl, rfl, rfl, rfl, ?_, fun _ hm => (List.not_mem_nil hm).elim⟩
      exact hkept.trans (List.append_nil _).symm
    | trouble t =>
      rcases Run.program_inv hs hr with hf | ⟨m₁, s, m₂, -, ha, error, b, rfl, hf, ht⟩
      · obtain ⟨m₁, hok⟩ := Run.refresh_ends m₀
        rw [hok] at hf
        cases hf
      · have hpoints := hf.points (fun _ h => h.positive) (hs s ha.mem)
        obtain ⟨l, hl, htext⟩ := hpoints.text
        refine ⟨.error error.text, rfl, rfl, rfl, rfl, ?_, fun message hmem => ?_⟩
        · exact congrArg (· ++ [error.text]) hkept
        · rw [List.mem_singleton.mp hmem, ht.text_eq (Run.heading_of_fails hf)]
          exact ⟨l, _, hl, htext⟩

/-- A script that says something to nobody comes to an outcome on a bot whose gauges cannot be read
and that cannot speak, and on a bot of the in-memory world that cannot speak. -/
theorem execute_settles_lost :
    let m : Machine Idle :=
      .fresh ⟨[some ⟨.connection, "lost"⟩, some ⟨.connection, "lost"⟩]⟩ {} 0
    let bot : Bot := { refusals := [(.say, .fault ⟨.connection, "lost"⟩)] }
    let p : Program := .ofStatements [.command ⟨1, 1⟩ (.say ⟨1, 1⟩ (.string ⟨1, 5⟩ "hello"))]
    Program.ofSource "say \"hello\"" = .ok p ∧
      (m.running = false ∧ ∃ outcome, (m.execute p).1 = .ok outcome ∧
        m.Settled "say \"hello\"" (m.execute p).2 outcome) ∧
      ∃ hb : bot.Tame, let m : Machine TameBot := .fresh ⟨bot, hb⟩ {} 0
        m.running = false ∧ ∃ outcome, (m.execute p).1 = .ok outcome ∧
          m.Settled "say \"hello\"" (m.execute p).2 outcome := by
  intro m bot p
  have hp : Program.ofSource "say \"hello\"" = .ok p := by
    cbv
  have hb : bot.Tame := Bot.tame_idle false #[] _ (Bot.silent_of_faults fun entry he => by
    rw [List.mem_singleton.mp he]
    exact ⟨_, rfl⟩)
  exact ⟨hp, ⟨rfl, execute_settles hp rfl⟩, hb, rfl, execute_settles hp rfl⟩

end AgentScript

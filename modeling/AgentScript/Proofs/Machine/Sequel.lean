import AgentScript.Proofs.Bot.Tie
import AgentScript.Proofs.Context.Agreement
import AgentScript.Proofs.Machine.Stop
import AgentScript.Proofs.Machine.Telemetry
import AgentScript.Proofs.Machine.Twin

/-! Scripts that run one after the other. The second run reads the instruments once more, and apart
from that the two do what the statements of both do in one run; if the first run fails, nothing of
the second script would have been run in one. -/
namespace AgentScript

variable {α : Type}

theorem Bot.settle_withCalls (b : Bot) (e : ScriptError) (calls : Array Call) :
    { b with calls := calls }.settle e = { b.settle e with calls := calls } := by
  unfold Bot.settle
  split <;> rfl

/-! Two runs that differ in their output only. -/

def Tie.mute : Tie Bot where
  places := Eq
  labels := Eq
  errors := Eq
  foreign _ := True
  contexts := Eq
  bots := Eq
  outputs _ _ := True

namespace Tie

instance : mute.Worldly where
  push _ _ := trivial
  locate _ _ := trivial
  rest h := by
    cases h
    rfl
  record _ h := by
    cases h
    rfl
  effect _ _ h := by
    cases h
    rfl
  refused _ _ := trivial

instance : mute.Throughout where
  tell _ _ _ := trivial
  call := level_operate
  foreign _ := rfl
  own _ := rfl
  located he hl := by
    cases he
    cases hl
    rfl
  read hc hn := by
    cases hc
    cases hn
    exact agree_refl (fun _ => rfl) (fun _ => rfl) _
  declare _ hc hn hl := by
    cases hc
    cases hn
    cases hl
    exact agree_refl (fun _ => rfl) (fun _ => rfl) _
  assign _ hc hn := by
    cases hc
    cases hn
    exact agree_refl (fun _ => rfl) (fun _ => rfl) _
  index _ hc := by
    cases hc
    exact agree_refl (fun _ => rfl) (fun _ => rfl) _
  enter := congrArg Context.enter
  exit := congrArg Context.exit
  countStatement := congrArg Context.countStatement
  countCommand := congrArg Context.countCommand
  outputs _ _ := trivial
  showing _ hc _ := by
    cases hc
    rfl
  markStart now := congrArg (Context.markStart · now)
  markComplete now := congrArg (Context.markComplete · now)
  recordError hc he := by
    cases hc
    cases he
    rfl
  settle hb he := by
    cases hb
    cases he
    rfl

theorem mute_inv {m m' : Machine} (h : mute.Machines m m') :
    ∃ lines, m' = { m with output := lines } := by
  obtain ⟨hb, hc, -⟩ := h
  cases hb
  cases hc
  exact ⟨_, rfl⟩

/-! Two runs of which one has made other calls before, and has read the instruments once more. -/

def sequel (before before' : Array Call) : Tie Bot where
  places := Eq
  labels n n' := n = n' ∧ ∀ key, n.key = .ok key → key ∉ readingNames
  errors := Eq
  foreign _ := True
  contexts := Context.AgreeOff readingNames
  bots b b' := ∃ more, b.calls = before ++ more ∧ b' = { b with calls := before' ++ more }
  outputs _ _ := True

variable {before before' : Array Call}

/-- A definition of a name that readings do not write. -/
theorem sequel_define {c c' : Context} (hc : c.AgreeOff readingNames c') {name : String}
    (hn : name ∉ readingNames) (v : Value) (l : Location) :
    (sequel before before').Agree (Context.AgreeOff readingNames)
      ((c.define name v .local false l).mapError .error)
      ((c'.define name v .local false l).mapError .error) := by
  rcases hc.define hn v l with ⟨hd, hd'⟩ | ⟨d, d', hd, hd', h⟩
  · rw [hd, hd']
    exact .error (.error rfl)
  · rw [hd, hd']
    exact .ok h

/-- An assignment to a name that readings do not write. -/
theorem sequel_set {c c' : Context} (hc : c.AgreeOff readingNames c') {name : String}
    (hn : name ∉ readingNames) (v : Value) :
    (sequel before before').Agree (Context.AgreeOff readingNames)
      ((c.set name v).mapError .error) ((c'.set name v).mapError .error) := by
  rcases hc.set hn v with ⟨hs, hs'⟩ | ⟨hs, hs'⟩ | ⟨d, d', hs, hs', h⟩
  · rw [hs, hs']
    exact .error (.error rfl)
  · rw [hs, hs']
    exact .error (.error rfl)
  · rw [hs, hs']
    exact .ok h

instance : (sequel before before').Worldly where
  push _ _ := trivial
  locate _ _ := trivial
  rest h := by
    obtain ⟨more, -, rfl⟩ := h
    rfl
  record call h := by
    obtain ⟨more, hm, rfl⟩ := h
    use more.push call
    constructor
    · rw [hm, Array.push_append]
    · rw [Array.push_append]
  effect he hc h := by
    obtain ⟨more, hm, rfl⟩ := h
    exact ⟨more, (he _).calls.trans hm, hc _ _⟩
  refused _ _ := trivial

instance : (sequel before before').Throughout where
  tell _ _ _ := trivial
  call := level_operate
  foreign _ := rfl
  own _ := rfl
  located he hl := by
    cases he
    cases hl
    rfl
  read {c c' n n'} hc hn := by
    obtain ⟨rfl, hfree⟩ := hn
    exact agree_read_label (fun _ => rfl) fun key hk => hc.lookup?_eq (hfree key hk)
  declare {c c' n n' l l'} v hc hn hl := by
    obtain ⟨rfl, hfree⟩ := hn
    cases hl
    exact agree_declare_label fun key hk => sequel_define hc (hfree key hk) v l
  assign {c c' n n'} v hc hn := by
    obtain ⟨rfl, hfree⟩ := hn
    refine agree_assign_label (fun _ => rfl) (fun key hk => hc.has_eq (hfree key hk)) fun key hk => ?_
    exact sequel_set hc (hfree key hk) v
  index v hc := sequel_define hc.enter (by decide) v ⟨0, 0⟩
  enter := Context.AgreeOff.enter
  exit := Context.AgreeOff.exit
  countStatement := Context.AgreeOff.countStatement
  countCommand := Context.AgreeOff.countCommand
  outputs _ _ := trivial
  showing now hc _ := hc.showing _ now
  markStart now hc := hc.markStart now now
  markComplete now hc := hc.markComplete now now
  recordError hc he := by
    cases he
    exact hc.recordError _
  settle {b b' e e'} hb he := by
    obtain ⟨more, hm, rfl⟩ := hb
    cases he
    exact ⟨more, (Machine.settle_calls b e).trans hm, Bot.settle_withCalls b e _⟩

end Tie

namespace Machine

/-- A machine in the middle of a run that nobody stops. -/
structure Underway (m : Machine) : Prop where
  running : m.running = true
  phase : m.phase = .running
  stop : m.stopRequested = false
  alarms : m.alarms = []
  stopAt : m.stopAt = none

/-- No part of a machine but its flags, its phase and what is to happen tells that it is underway. -/
theorem Underway.moved {m : Machine} (h : m.Underway) {bot : Bot} {context : Context}
    {clock : Float} {last : Option CommandResult} {output : Array Line} :
    Underway { m with
      bot := bot, context := context, clock := clock, last := last, output := output } :=
  ⟨h.running, h.phase, h.stop, h.alarms, h.stopAt⟩

def StaysUnderway (m m' : Machine) : Prop := m.Underway → m'.Underway

theorem countDown_of_none {m : Machine} (h : m.stopAt = none) (request : Request) :
    m.countDown request = m := by
  unfold countDown
  rw [h]

theorem record_of_none {m : Machine} (h : m.stopAt = none) (call : Call) :
    m.record call = { m with bot := { m.bot with calls := m.bot.calls.push call } } := by
  have hrecorded : { m with bot := { m.bot with calls := m.bot.calls.push call } }.stopAt = none := h
  exact countDown_of_none hrecorded call.request

theorem underway_waitUntil {m : Machine} (h : m.Underway) (time : Float) :
    (m.waitUntil time).Underway := by
  have hring : m.ring time = m := by
    obtain ⟨bot, context, settings, clock, phase, running, stop, last, output, alarms, at?, probes⟩ := m
    have halarms : alarms = [] := h.alarms
    subst halarms
    rfl
  unfold waitUntil
  dsimp only
  rw [hring]
  split
  · exact h.moved
  · exact h

instance : Run.AllowsBot StaysUnderway where
  refl _ h := h
  trans h h' hm := h' (h hm)
  output _ _ h := h.moved
  record m call h := by
    rw [record_of_none h.stopAt]
    exact h.moved
  effect _ _ _ h := h.moved
  wait _ time h := underway_waitUntil h time

instance : Run.AllowsStatements StaysUnderway where
  last _ _ h := h.moved
  count _ h := h.moved
  define _ _ _ _ _ _ h := h.moved
  assign _ _ _ _ _ h := h.moved
  scope m m' hm h := by
    have hinner : m'.Underway := hm h.moved
    exact hinner.moved

theorem underway_program {m m' : Machine} {b : Body} (h : m.Underway)
    (hm : Run.program b m = .ok () m') : m'.Underway := by
  have hlaw := Run.law_program (P := fun _ => Run.Keeps StaysUnderway) (fun s now =>
    Run.keeps_changeContext fun m c _ h => h.moved) b
  exact hlaw.ok hm h

end Machine

namespace Run

def Still (m m' : Machine) : Prop := m' = m

instance : Lasting Still := ⟨fun _ => rfl, fun h h' => Eq.trans h' h⟩

theorem still_pure (a : α) : Keeps Still (pure a) := fun _ => rfl

theorem still_ask (question : Bot → Except Trouble α) : Keeps Still (ask question) := by
  intro m
  change (lift (question m.bot)).after m = m
  cases question m.bot <;> rfl

/-- No call but one for the vital signs is recorded. -/
theorem still_read {panel : Panel} (h : panel ≠ .vitals) :
    Keeps Still (Port.call (.read panel) : Run (Gauge → Json)) := by
  change Keeps Still (readPanel panel)
  unfold readPanel
  rw [if_neg h]
  exact still_ask _

/-- Reading the instruments changes nothing but that there is a call on record. -/
theorem after_readGauges {m : Machine} (h : m.stopAt = none) :
    readGauges.after m = { m with bot := { m.bot with calls := m.bot.calls.push .vitals } } := by
  have hall : Still ((readPanel .vitals).after m) (readGauges.after m) :=
    keeps_rest (fun _ => keeps_bind (still_read (by decide)) fun _ =>
      keeps_bind (still_read (by decide)) fun _ => keeps_bind (still_read (by decide)) fun _ =>
        keeps_bind (still_read (by decide)) fun _ => keeps_bind (still_read (by decide)) fun _ =>
          keeps_bind (still_read (by decide)) fun _ => still_pure _) m
  have hvitals : (readPanel .vitals).after m = m.record .vitals := by
    have hasked : Keeps Still (ask (·.ask .vitals) >>= fun _ => ask (·.readPanel .vitals)) :=
      keeps_bind (still_ask _) fun _ => still_ask _
    exact hasked (m.record .vitals)
  rw [hall, hvitals, Machine.record_of_none h]

/-- What a machine has become by readings that came to their end. -/
theorem refresh_moves {m m' : Machine} (h : m.stopAt = none) (hm : refresh m = .ok () m') :
    ∃ lines, m' = { m with
      bot := { m.bot with calls := m.bot.calls.push .vitals }
      context := m'.context
      output := lines } := by
  have hafter := after_readGauges h
  cases hr : readGauges m with
  | ok s m₁ =>
    rw [after_of_ok hr] at hafter
    rw [refresh_of_read hr, changeContext_apply, hafter] at hm
    split at hm
    · cases hm
      exact ⟨m.output, rfl⟩
    · cases hm
  | error halt m₁ =>
    rw [after_of_error hr] at hafter
    cases halt with
    | stopped =>
      rw [refresh, bind_of_error (attempt_of_stopped hr)] at hm
      cases hm
    | trouble t =>
      rw [refresh_of_trouble hr, changeContext_apply, hafter] at hm
      split at hm
      · cases hm
        exact ⟨_, rfl⟩
      · cases hm

theorem statements_append (p q : List Stmt) :
    (statements (p ++ q) : Run Unit) = (do
      statements p
      statements q) := by
  induction p with
  | nil => rfl
  | cons s p ih =>
    rw [List.cons_append, statements, statements, ih]
    simp only [bind_assoc]

theorem program_append (p q : List Stmt) :
    (program (.statements (p ++ q)) : Run Unit) = (do
      program (.statements p)
      statements q) := by
  change (refresh >>= fun _ => statements (p ++ q)) = _
  rw [statements_append]
  simp only [program, block, bind_assoc]

end Run

namespace Tie

/-- Two runs that end alike come to the same if their errors are the same. -/
theorem Ends.outcome_eq {T : Tie Bot} (hT : ∀ {e e'}, T.errors e e' → e' = e)
    {r r' : EStateM.Result Halt Machine Unit} (h : T.Ends T.Troubles r r') :
    (Machine.ended r').1 = (Machine.ended r).1 := by
  cases h with
  | ok _ _ => rfl
  | stopped _ => rfl
  | trouble ht _ =>
    cases ht with
    | fault f => rfl
    | error he =>
      rw [hT he]
      rfl

end Tie

namespace Machine

def announce (m : Machine) (list : List Stmt) : Machine :=
  m.log .info ("Executing program with " ++ toString list.length ++ " statements")

theorem begins_statements {m m' : Machine} (h : m.begin = .ok m') (list : List Stmt) :
    m.Begins (.ofStatements list) (m'.announce list) (.statements list) :=
  .intro h rfl rfl

theorem execute_statements {m m' : Machine} (h : m.begin = .ok m') (list : List Stmt) :
    m.execute (.ofStatements list) =
      ended (Run.program (.statements list) (m'.announce list)) :=
  (begins_statements h list).execute_eq

/-- All readings of the bot at the start of a run have values, unless it refuses to be read. -/
def Legible (m : Machine) (p : Program) : Prop :=
  ∀ m₀ body, m.Begins p m₀ body → ∀ f, ¬ m₀.Misreads f

/-- A bot that refuses to show its vital signs is not read at all. -/
theorem legible_of_refused {m : Machine} {r : Refusal} (h : m.bot.refusal? .vitals = some r)
    (p : Program) : m.Legible p := by
  intro m₀ body hm₀ f hf
  obtain ⟨s, m₁, hr, -⟩ := hf
  have hbot : m₀.bot = m.bot := by
    obtain ⟨hm, -, -⟩ := hm₀
    rw [begin_eq hm]
    rfl
  have hrefuses : (m₀.record .vitals).bot.refusal? .vitals = some r := by
    obtain ⟨flag, at?, he, -⟩ := m₀.record_eq .vitals
    rw [he]
    exact (congrArg (Bot.refusal? · .vitals) hbot).trans h
  have hrequest : Run.request .vitals m₀ =
      .error (.trouble (r.trouble .vitals)) (m₀.record .vitals) := by
    change Run.lift ((m₀.record .vitals).bot.ask .vitals) (m₀.record .vitals) = _
    rw [Bot.ask, hrefuses]
    rfl
  have hread : (Port.call (.read .vitals) : Run _) m₀ =
      .error (.trouble (r.trouble .vitals)) (m₀.record .vitals) := Run.bind_of_error hrequest _
  rw [Run.readGauges, Run.bind_of_error hread] at hr
  cases hr

/-- The same statements run alike whatever has been announced. -/
theorem program_announced (m : Machine) (p list list' : List Stmt) :
    Tie.mute.Ends Tie.mute.Troubles (Run.program (.statements p) (m.announce list))
      (Run.program (.statements p) (m.announce list')) := by
  have hmatch : (Body.statements p).Match Tie.mute.places Tie.mute.labels (.statements p) :=
    .statements (Stmt.matchAll_refl (fun _ => rfl) fun _ _ => rfl)
  have hm : Tie.mute.Machines (m.announce list) (m.announce list') := ⟨rfl, rfl, trivial⟩
  exact Tie.twins_program hmatch hm

/-- Statements that are appended to a script that does not come to its end change nothing. -/
theorem execute_append_of_ne {m : Machine} {p : List Stmt}
    (h : (m.execute (.ofStatements p)).1 ≠ .ok .success) (q : List Stmt) :
    (m.execute (.ofStatements (p ++ q))).1 = (m.execute (.ofStatements p)).1 ∧
      ∃ lines, (m.execute (.ofStatements (p ++ q))).2 =
        { (m.execute (.ofStatements p)).2 with output := lines } := by
  cases hb : m.begin with
  | error f =>
    have he : ∀ list, m.execute (.ofStatements list) = (.error f, m) := by
      intro list
      rw [execute, hb]
    rw [he, he]
    exact ⟨rfl, m.output, rfl⟩
  | ok m' =>
    have hends := m'.program_announced p p (p ++ q)
    rw [execute_statements hb] at h
    rw [execute_statements hb, execute_statements hb, Run.program_append]
    cases hr : Run.program (.statements p) (m'.announce p) with
    | ok u m₁ =>
      rw [hr] at h
      exact (h rfl).elim
    | error halt m₁ =>
      cases hr' : Run.program (.statements p) (m'.announce (p ++ q)) with
      | ok u' m₁' =>
        rw [hr, hr'] at hends
        cases hends
      | error halt' m₁' =>
        rw [hr, hr'] at hends
        rw [Run.bind_of_error hr']
        exact ⟨hends.outcome_eq Eq.symm, Tie.mute_inv hends.ended⟩

theorem underway_announce {m : Machine} (h : m.Underway) (list : List Stmt) :
    (m.announce list).Underway := h.moved

/-- A run that came to its end had begun. -/
theorem begin_of_success {m : Machine} {p : Program} (h : (m.execute p).1 = .ok .success) :
    ∃ m', m.begin = .ok m' := by
  cases hb : m.begin with
  | ok m' => exact ⟨m', rfl⟩
  | error f =>
    rw [execute, hb] at h
    cases h

theorem underway_begin {m m' : Machine} (h : m.begin = .ok m') (halarms : m.alarms = [])
    (hstop : m.stopAt = none) : m'.Underway := by
  rw [begin_eq h]
  exact ⟨rfl, rfl, rfl, halarms, hstop⟩

/-- A run that came to its end, and the beginning of the next one, change nothing but the times of the
run. -/
theorem begin_complete {m : Machine} (h : m.Underway) :
    ∃ lines, m.complete.begin = .ok { m with
      context := (m.context.markComplete m.now).markStart m.now
      output := lines } := by
  obtain ⟨bot, context, settings, clock, phase, running, stop, last, output, alarms, at?, probes⟩ := m
  obtain ⟨hrunning, hphase, hstop, halarms, hat⟩ := h
  cases hrunning
  cases hphase
  cases hstop
  exact ⟨_, rfl⟩

/-- What becomes of a machine when its readings change hands from one run to the next: a call is on
record, and the readings and the times of the run are new. -/
theorem sequel_refresh {m n m₁ m₂ : Machine} {c : Context} {lines : Array Line}
    (hn : n = { m with context := c, output := lines }) (hc : m.context.AgreeOff readingNames c)
    (hat : m.stopAt = none) (hr : n.Refreshed m₁) (hm : Tie.mute.Machines m m₂) :
    (Tie.sequel m.bot.calls (m.bot.calls.push .vitals)).Machines m₂ m₁ := by
  have hat' : n.stopAt = none := by
    rw [hn]
    exact hat
  have hcontext : n.context.AgreeOff readingNames m₁.context := by
    rcases hr.shows with ⟨s, shown, _, -, hs, he⟩ | ⟨_, _, -, he, -⟩
    · rw [he]
      exact Context.agreeOff_showing _ _ fun _ hx => Snapshot.names_toVariables hs hx
    · rw [he]
      exact Context.agreeOff_showing _ _ fun _ hx => nomatch hx
  obtain ⟨lines₂, rfl⟩ := Tie.mute_inv hm
  obtain ⟨lines₁, hmoved⟩ := Run.refresh_moves hat' hr.reads
  subst hn
  rw [hmoved]
  refine Tie.Machines.swap ⟨#[], ?_, ?_⟩ (hc.trans hcontext) trivial
  · exact Array.append_empty.symm
  · rw [Array.append_empty]

theorem of_ended_success {r : EStateM.Result Halt Machine Unit}
    (h : (ended r).1 = .ok .success) : ∃ m, r = .ok () m := by
  cases r with
  | ok u m => exact ⟨m, rfl⟩
  | error halt m =>
    cases halt with
    | stopped => cases h
    | trouble t => cases t <;> cases h

/-- Statements that are appended to a script that comes to its end do what they do in a run of their
own after it, which reads the instruments once more. -/
theorem execute_append_of_success {m : Machine} {p q : List Stmt}
    (h : (m.execute (.ofStatements p)).1 = .ok .success)
    (halarms : m.alarms = []) (hat : m.stopAt = none)
    (hq : ∀ n ∈ Stmt.labelsOf q, ∀ key, n.key = .ok key → key ∉ readingNames)
    (hlegible : (m.execute (.ofStatements p)).2.Legible (.ofStatements q)) :
    ((m.execute (.ofStatements p)).2.execute (.ofStatements q)).1 =
      (m.execute (.ofStatements (p ++ q))).1 ∧
    (Tie.sequel (m.execute (.ofStatements p)).2.bot.calls
      ((m.execute (.ofStatements p)).2.bot.calls.push .vitals)).Machines
        (m.execute (.ofStatements (p ++ q))).2
        ((m.execute (.ofStatements p)).2.execute (.ofStatements q)).2 := by
  obtain ⟨m', hb⟩ := begin_of_success h
  rw [execute_statements hb] at h hlegible
  obtain ⟨m₁, hr⟩ := of_ended_success h
  have hends := m'.program_announced p p (p ++ q)
  rw [hr] at hends
  generalize hr' : Run.program (.statements p) (m'.announce (p ++ q)) = r' at hends
  cases hends with
  | @ok _ m₂ _ hm =>
    have hunderway : m₁.Underway :=
      underway_program (underway_announce (underway_begin hb halarms hat) p) hr
    obtain ⟨lines, hnext⟩ := begin_complete hunderway
    have hfirst : m.execute (.ofStatements p) = (.ok .success, m₁.complete) := by
      rw [execute_statements hb, hr]
      rfl
    rw [hfirst, execute_statements hnext, execute_statements hb, Run.program_append,
      Run.bind_of_ok hr']
    rw [hr] at hlegible
    have hmarked : m₁.context.AgreeOff readingNames
        ((m₁.context.markComplete m₁.now).markStart m₁.now) :=
      (Context.AgreeOff.refl m₁.context).withStats rfl
    generalize hn : Machine.announce _ q = n
    rcases n.refresh_cases with ⟨f, _, hf, -⟩ | ⟨m₃, hm₃⟩
    · rw [← hn] at hf
      exact (hlegible _ _ (begins_statements hnext q) f hf).elim
    · have hmatch : List.Forall₂ (Stmt.Match Eq (Tie.sequel m₁.bot.calls
          (m₁.bot.calls.push .vitals)).labels) q q :=
        Stmt.matchAll_refl (fun _ => rfl) fun n hn => ⟨rfl, hq n hn⟩
      have hrest := Tie.twins_statements q q hmatch
        (sequel_refresh (m := m₁) hn.symm hmarked hunderway.stopAt hm₃ hm)
      rw [show Run.program (.statements q) n = Run.statements q m₃ from Run.bind_of_ok hm₃.reads _]
      exact ⟨hrest.outcome_eq Eq.symm, hrest.ended⟩

/-- Two scripts, one after the other or in one run. If the first comes to its end, nobody asks for a
stop, and the second does not use the names of readings, then the two runs come to what one run comes
to and leave what it leaves: the second has read the instruments once more, and may differ in the
readings, in the times of the run and in its output. If the first does not come to its end, neither
does the one run, which leaves the same and says so in other words. -/
theorem execute_append (m : Machine) (p q : List Stmt) :
    let first := m.execute (.ofStatements p)
    let next := first.2.execute (.ofStatements q)
    let whole := m.execute (.ofStatements (p ++ q))
    (first.1 = .ok .success → m.alarms = [] → m.stopAt = none →
      (∀ n ∈ Stmt.labelsOf q, ∀ key, n.key = .ok key → key ∉ readingNames) →
      first.2.Legible (.ofStatements q) →
        next.1 = whole.1 ∧ ∃ more context lines,
          whole.2.bot.calls = first.2.bot.calls ++ more ∧
          whole.2.context.AgreeOff readingNames context ∧
          next.2 = { whole.2 with
            bot := { whole.2.bot with calls := first.2.bot.calls.push .vitals ++ more }
            context := context
            output := lines }) ∧
    (first.1 ≠ .ok .success →
      whole.1 = first.1 ∧ ∃ lines, whole.2 = { first.2 with output := lines }) := by
  intro first next whole
  constructor
  · intro h halarms hat hq hlegible
    obtain ⟨houtcome, hm⟩ := execute_append_of_success h halarms hat hq hlegible
    change (Tie.sequel _ _).Machines whole.2 next.2 at hm
    generalize next.2 = final at hm ⊢
    obtain ⟨hb, hc, -⟩ := hm
    obtain ⟨more, hcalls, rfl⟩ := hb
    exact ⟨houtcome, more, _, _, hcalls, hc, rfl⟩
  · intro h
    exact execute_append_of_ne h q

/-- Two words that are said one after the other, by a bot that has lost sight of itself. -/
theorem execute_append_hello :
    let m : Machine := .fresh { refusals := [(.vitals, .fault ⟨.connection, "lost"⟩)] } {} 0
    let p : List Stmt := [.command ⟨1, 1⟩ (.say ⟨1, 1⟩ (.string ⟨1, 5⟩ "hello"))]
    let q : List Stmt := [.command ⟨1, 1⟩ (.say ⟨1, 1⟩ (.string ⟨1, 5⟩ "world"))]
    let first := m.execute (.ofStatements p)
    let next := first.2.execute (.ofStatements q)
    let whole := m.execute (.ofStatements (p ++ q))
    first.1 = .ok .success ∧ first.2.Legible (.ofStatements q) ∧ next.1 = whole.1 ∧
      ∃ more context lines,
        whole.2.bot.calls = first.2.bot.calls ++ more ∧
        whole.2.context.AgreeOff readingNames context ∧
        next.2 = { whole.2 with
          bot := { whole.2.bot with calls := first.2.bot.calls.push .vitals ++ more }
          context := context
          output := lines } := by
  intro m p q first next whole
  have hfirst : first.1 = .ok .success := by
    decide +kernel
  have hrefused : first.2.bot.refusal? .vitals = some (.fault ⟨.connection, "lost"⟩) := by
    decide +kernel
  have hlegible : first.2.Legible (.ofStatements q) := legible_of_refused hrefused _
  have hq : ∀ n ∈ Stmt.labelsOf q, ∀ key, n.key = .ok key → key ∉ readingNames :=
    fun _ hn => (List.not_mem_nil hn).elim
  have halarms : m.alarms = [] := rfl
  have hat : m.stopAt = none := rfl
  have happend := execute_append m p q
  -- Both sides name the same runs, which are not to be carried out to see that.
  clear_value m
  exact ⟨hfirst, hlegible, happend.1 hfirst halarms hat hq hlegible⟩

end Machine

end AgentScript

import AgentScript.Proofs.Machine.Escort

/-! Intrusions: attempts to run another program on a machine, or to give it another context, while it is
in the middle of a run and waits. Each of them is refused and leaves the machine as it is, so the run
goes on as if nobody had tried. -/
namespace AgentScript

inductive Intrusion
  | execute (p : Program)
  | setContext (c : Context)

def Intrusion.refusal : Intrusion → Fault
  | execute _ => ⟨.runtime, "Interpreter is already executing a program"⟩
  | setContext _ => ⟨.runtime, "Cannot replace the context while a program is running"⟩

namespace Machine

def suffer (m : Machine) : Intrusion → Except Fault Unit × Machine
  | .execute p => ((m.execute p).1.map fun _ => (), (m.execute p).2)
  | .setContext c =>
    match m.setContext c with
    | .ok m' => (.ok (), m')
    | .error f => (.error f, m)

/-- A machine in the middle of a run. -/
structure Held (m : Machine) : Prop where
  running : m.running = true
  phase : m.phase = .running

end Machine

/-- An intrusion that was carried out, and the machine before and after it. -/
structure Incident where
  intrusion : Intrusion
  before : Machine
  answer : Except Fault Unit
  after : Machine

/-- The machine was in the middle of a run, refused the intrusion and stayed what it was. -/
structure Incident.Harmless (i : Incident) : Prop where
  held : i.before.Held
  refused : i.answer = .error i.intrusion.refusal
  unchanged : i.after = i.before

/-- Intrusions to come, whenever the run waits for the next time, and those that were carried out. -/
structure Siege where
  plan : List (List Intrusion)
  incidents : List Incident := []

namespace Siege

def attack (s : Machine × Siege) (i : Intrusion) : Machine × Siege :=
  let (answer, m) := s.1.suffer i
  (m, { s.2 with incidents := s.2.incidents ++ [⟨i, s.1, answer, m⟩] })

/-- Carries out the intrusions that are due, any number of them. -/
def strike (s : Machine × Siege) : Machine × Siege :=
  match s.2.plan with
  | [] => s
  | now :: later => now.foldl attack (s.1, { s.2 with plan := later })

def runAll (due : List Alarm) (s : Machine × Siege) : Machine × Siege :=
  due.foldl (fun s a => strike (s.1.run a.errand, s.2)) s

def waitUntil (time : Float) (s : Machine × Siege) : Machine × Siege :=
  let s := strike s
  let (due, later) := s.1.alarms.partition (·.due < time + Machine.tick)
  let s := runAll due ({ s.1 with alarms := later }, s.2)
  if s.1.clock < time then ({ s.1 with clock := time }, s.2) else s

/-- A wait of no length, which suspends the run all the same. -/
def pause : Escorted Siege Unit := modify strike

def wait (time : Float → Float) : Escorted Siege Unit := modify fun s => waitUntil (time s.1.clock) s

open Escorted (quiet attempt)

def sleep (seconds : Float) : Escorted Siege CommandResult := do
  if 0 < seconds then wait (· + seconds) else pause
  return .done ("Waited " ++ Number.scriptText seconds ++ " seconds")

def waitFor (seconds : Expr) : Escorted Siege CommandResult := do
  match ← quiet (Run.evaluate seconds) with
  | .number x =>
    if x.isFinite && 0 ≤ x then sleep x
    else quiet (Run.fail (.error (.locatedAt (.waitSeconds (.number x)) seconds.loc)))
  | v => quiet (Run.fail (.error (.locatedAt (.waitSeconds v) seconds.loc)))

def travel (target : Point) : Escorted Siege Bool := do
  quiet (Run.request (.goto target.x target.y target.z))
  let m := (← get).1
  if Run.inTime m.clock m.bot.gotoDelay m.settings.gotoTimeout then
    if 0 < m.bot.gotoDelay then
      wait (· + m.bot.gotoDelay)
      quiet (Run.arrive target)
    else quiet (Run.arrive target)
  else
    wait (· + m.settings.gotoTimeout)
    return false

def journey (target : Point) : Escorted Siege Bool := do
  wait id
  if (← get).1.settings.gotoTimeout ≤ 0 then return false
  else travel target

def travelTo (target : Point) : Escorted Siege CommandResult := do
  let timedOut : CommandResult := .failed ("Goto failed: timed out after "
    ++ Number.scriptText (← get).1.settings.gotoTimeout ++ " seconds")
  let arrival ← attempt (journey target)
  pause
  match arrival with
  | .ok true => return .done ("Successfully moved to " ++ Run.pointText target)
  | .ok false => return timedOut
  | .error (.fault ⟨.timeout, _⟩) => return timedOut
  | .error t => return .failed ("Goto failed: " ++ t.text)

/-- Only journeys and waits suspend a run. -/
def carryOut : Command → Escorted Siege CommandResult
  | .goto _ x y z => do travelTo (← quiet (Run.point "GOTO" x y z))
  | .wait _ seconds => waitFor seconds
  | c => quiet (Run.carryOut c)

def command (c : Command) : Escorted Siege CommandResult := do
  let start := (← get).1.clock
  let result ← match ← attempt (carryOut c) with
    | .ok result => pure result
    | .error (.fault f) => pure (.failed f.summary)
    | .error t => quiet (Run.fail t)
  return { result with duration := ((← get).1.clock - start) * 1000 }

end Siege

/-- Runs a program with intrusions whenever it is suspended. -/
def Machine.executeBesieged (m : Machine) (plan : List (List Intrusion)) (p : Program) :
    (Except Fault Outcome × Machine) × Siege :=
  m.executeEscorted Siege.command ⟨plan, []⟩ p

namespace Machine

theorem execute_of_running {m : Machine} (h : m.running = true) (p : Program) :
    m.execute p = (.error (Intrusion.execute p).refusal, m) := by
  have hb : m.begin = .error (Intrusion.execute p).refusal := if_pos h
  rw [execute, hb]

theorem setContext_of_running {m : Machine} (h : m.running = true) (c : Context) :
    m.setContext c = .error (Intrusion.setContext c).refusal := if_pos h

/-- In the middle of a run nothing comes of an intrusion. -/
theorem Held.suffer {m : Machine} (h : m.Held) (i : Intrusion) :
    m.suffer i = (.error i.refusal, m) := by
  cases i with
  | execute p =>
    dsimp only [Machine.suffer]
    rw [execute_of_running h.running p]
    rfl
  | setContext c =>
    dsimp only [Machine.suffer]
    rw [setContext_of_running h.running c]

/-- Whether the machine is in the middle of a run is the same. -/
def SameHold (m m' : Machine) : Prop := m'.running = m.running ∧ m'.phase = m.phase

theorem Held.of_same {m m' : Machine} (h : m.Held) (hm : SameHold m m') : m'.Held :=
  ⟨hm.1.trans h.running, hm.2.trans h.phase⟩

end Machine

namespace Run

open Machine (SameHold)

instance : AllowsBot SameHold where
  refl _ := ⟨rfl, rfl⟩
  trans h h' := ⟨h'.1.trans h.1, h'.2.trans h.2⟩
  output _ _ := ⟨rfl, rfl⟩
  record m call := by
    obtain ⟨flag, at?, he, -⟩ := m.record_eq call
    rw [he]
    exact ⟨rfl, rfl⟩
  effect _ _ _ := ⟨rfl, rfl⟩
  wait m time := by
    obtain ⟨flag, probes, later, he, -⟩ := m.waitUntil_eq time
    rw [he]
    exact ⟨rfl, rfl⟩

instance : AllowsStatements SameHold where
  last _ _ := ⟨rfl, rfl⟩
  count _ := ⟨rfl, rfl⟩
  define _ _ _ _ _ _ := ⟨rfl, rfl⟩
  assign _ _ _ _ _ := ⟨rfl, rfl⟩
  scope _ _ h := h

end Run

namespace Siege

variable {α : Type}

open Escorted (quiet attempt Shows shows_pure shows_bind shows_attempt shows_get)

/-- The machine is in the middle of a run, and of the intrusions that were planned those that were
carried out so far did no harm. -/
structure Withstands (all : List Intrusion) (s : Machine × Siege) : Prop where
  held : s.1.Held
  harmless : ∀ i ∈ s.2.incidents, i.Harmless
  planned : s.2.incidents.map (·.intrusion) ++ s.2.plan.flatten = all

variable {all : List Intrusion}

theorem invariant_withstands : Escorted.Invariant Machine.SameHold (Withstands all) where
  kept hm h := ⟨h.held.of_same hm, h.harmless, h.planned⟩
  context _ h := ⟨⟨h.held.running, h.held.phase⟩, h.harmless, h.planned⟩

theorem attack_eq {s : Machine × Siege} (h : s.1.Held) (i : Intrusion) :
    attack s i =
      (s.1, { s.2 with incidents := s.2.incidents ++ [⟨i, s.1, .error i.refusal, s.1⟩] }) := by
  unfold attack
  rw [h.suffer i]

theorem foldl_attack (now : List Intrusion) {s : Machine × Siege} (h : s.1.Held) :
    now.foldl attack s = (s.1, { s.2 with
      incidents := s.2.incidents ++ now.map fun i => ⟨i, s.1, .error i.refusal, s.1⟩ }) := by
  induction now generalizing s with
  | nil => rw [List.map_nil, List.append_nil, List.foldl_nil]
  | cons i now ih =>
    have hnext := ih (s := (s.1, { s.2 with
      incidents := s.2.incidents ++ [⟨i, s.1, .error i.refusal, s.1⟩] })) h
    rw [List.foldl_cons, attack_eq h, hnext, List.append_assoc]
    rfl

theorem withstands_strike {s : Machine × Siege} (h : Withstands all s) :
    (strike s).1 = s.1 ∧ Withstands all (strike s) := by
  unfold strike
  split
  · exact ⟨rfl, h⟩
  · next now later hplan =>
    rw [foldl_attack now (s := (s.1, { s.2 with plan := later })) h.held]
    refine ⟨rfl, h.held, fun i hi => ?_, ?_⟩
    · rcases List.mem_append.mp hi with hi | hi
      · exact h.harmless i hi
      · obtain ⟨intrusion, -, rfl⟩ := List.mem_map.mp hi
        exact ⟨h.held, rfl, rfl⟩
    · have hplanned := h.planned
      rw [hplan, List.flatten_cons, ← List.append_assoc] at hplanned
      rw [List.map_append, List.map_map]
      have hid : List.map ((fun i : Incident => i.intrusion) ∘
          fun i => (⟨i, s.1, .error i.refusal, s.1⟩ : Incident)) now = now := List.map_id now
      rw [hid]
      exact hplanned

theorem withstands_run {s : Machine × Siege} (h : Withstands all s) (errand : Errand) :
    Withstands all (s.1.run errand, s.2) := by
  obtain ⟨flag, probes, he, -⟩ := s.1.run_eq errand
  rw [he]
  exact ⟨⟨h.held.running, h.held.phase⟩, h.harmless, h.planned⟩

theorem withstands_runAll (due : List Alarm) {s : Machine × Siege} (h : Withstands all s) :
    (runAll due s).1 = due.foldl (fun m a => m.run a.errand) s.1 ∧
      Withstands all (runAll due s) := by
  induction due generalizing s with
  | nil => exact ⟨rfl, h⟩
  | cons a due ih =>
    obtain ⟨hm, hs⟩ := withstands_strike (withstands_run h a.errand)
    obtain ⟨hm', hs'⟩ := ih hs
    rw [hm] at hm'
    exact ⟨hm', hs'⟩

theorem withstands_waitUntil (time : Float) {s : Machine × Siege} (h : Withstands all s) :
    (waitUntil time s).1 = s.1.waitUntil time ∧ Withstands all (waitUntil time s) := by
  obtain ⟨hm, hs⟩ := withstands_strike h
  unfold waitUntil Machine.waitUntil Machine.ring
  dsimp only
  rw [← hm]
  obtain ⟨hm', hs'⟩ := withstands_runAll ((strike s).1.alarms.partition (·.due < time + Machine.tick)).1
    (s := ({ (strike s).1 with
      alarms := ((strike s).1.alarms.partition (·.due < time + Machine.tick)).2 }, (strike s).2))
    ⟨⟨hs.held.running, hs.held.phase⟩, hs.harmless, hs.planned⟩
  rw [← hm']
  split
  · exact ⟨rfl, ⟨hs'.held.running, hs'.held.phase⟩, hs'.harmless, hs'.planned⟩
  · exact ⟨rfl, hs'⟩

/-- Parts that do not set the machine free. -/
abbrev Holds (α : Type) (part : Run α) : Prop := Run.Keeps Machine.SameHold part

theorem shows_quiet {part : Run α} (h : Holds α part) :
    Shows (Withstands all) (quiet part) part := Escorted.shows_quiet invariant_withstands h

theorem shows_wait (time : Float → Float) :
    Shows (Withstands all) (wait time) (modify fun m => m.waitUntil (time m.clock)) := by
  intro s h
  obtain ⟨hm, hs⟩ := withstands_waitUntil (time s.1.clock) h
  exact ⟨congrArg (EStateM.Result.ok ()) hm, hs⟩

theorem shows_pause : Shows (Withstands all) pause (pure ()) := by
  intro s h
  obtain ⟨hm, hs⟩ := withstands_strike h
  exact ⟨congrArg (EStateM.Result.ok ()) hm, hs⟩

theorem shows_sleep (seconds : Float) :
    Shows (Withstands all) (sleep seconds) (Run.sleep seconds) := by
  unfold sleep Run.sleep
  split
  · exact shows_bind (shows_wait (· + seconds)) fun _ => shows_pure _
  · exact shows_bind shows_pause fun _ => shows_pure _

theorem shows_waitFor (seconds : Expr) :
    Shows (Withstands all) (waitFor seconds) (Run.wait seconds) := by
  have failed : ∀ t : Trouble, Shows (Withstands all) (quiet (Run.fail t))
      (Run.fail t : Run CommandResult) :=
    fun t => shows_quiet (Run.PartLaw.fail (P := Holds) t)
  refine shows_bind (shows_quiet (Run.law_evaluate (P := Holds) seconds)) fun v => ?_
  cases v with
  | number x =>
    dsimp only
    split
    · exact shows_sleep x
    · exact failed _
  | _ => exact failed _

theorem shows_travel (target : Point) :
    Shows (Withstands all) (travel target) (Run.travel target) := by
  refine shows_bind (shows_quiet (Run.law_request (P := Holds) _)) fun _ => shows_get fun s => ?_
  have arrives : Shows (Withstands all) (quiet (Run.arrive target)) (Run.arrive target) :=
    shows_quiet (Run.law_arrive target)
  dsimp only
  split
  · split
    · exact shows_bind (shows_wait (· + s.1.bot.gotoDelay)) fun _ => arrives
    · exact arrives
  · exact shows_bind (shows_wait (· + s.1.settings.gotoTimeout)) fun _ => shows_pure false

theorem shows_journey (target : Point) :
    Shows (Withstands all) (journey target) (Run.journey target) := by
  refine shows_bind (shows_wait id) fun _ => shows_get fun s => ?_
  split
  · exact shows_pure false
  · exact shows_travel target

/-- A pause shows nothing. -/
theorem shows_after_pause {escorted : Escorted Siege α} {part : Run α}
    (h : Shows (Withstands all) escorted part) :
    Shows (Withstands all) (pause >>= fun _ => escorted) part := by
  have hpart : part = (pure () >>= fun _ => part) := rfl
  rw [hpart]
  exact shows_bind shows_pause fun _ => h

theorem shows_travelTo (target : Point) :
    Shows (Withstands all) (travelTo target) (Run.travelTo target) := by
  refine shows_get fun s => shows_bind (shows_attempt (shows_journey target)) fun arrival =>
    shows_after_pause ?_
  cases arrival with
  | ok arrived => cases arrived <;> exact shows_pure _
  | error t =>
    cases t with
    | error e => exact shows_pure _
    | fault f =>
      obtain ⟨kind, text⟩ := f
      cases kind <;> exact shows_pure _

theorem shows_carryOut (c : Command) : Shows (Withstands all) (carryOut c) (Run.carryOut c) := by
  unfold carryOut
  split
  · exact shows_bind (shows_quiet (Run.law_point (P := Holds) "GOTO" _ _ _)) fun p =>
      shows_travelTo p
  · exact shows_waitFor _
  · exact shows_quiet (Run.law_carryOut (P := Holds) c)

theorem shows_command (c : Command) : Shows (Withstands all) (command c) (Run.command c) := by
  refine shows_get fun s => shows_bind (shows_attempt (shows_carryOut c)) fun r => ?_
  have measured : ∀ result : CommandResult, Shows (Withstands all)
      (do return { result with duration := ((← get).1.clock - s.1.clock) * 1000 })
      (do return { result with duration := ((← get).clock - s.1.clock) * 1000 }) :=
    fun result => shows_get fun s' => shows_pure _
  cases r with
  | ok result => exact measured result
  | error t =>
    cases t with
    | fault f => exact measured _
    | error e => exact shows_quiet (Run.PartLaw.fail (P := Holds) (.error e))

end Siege

/-- Whoever tries to run another program on a machine or to give it another context, whenever a run of
it is suspended, and however often, is refused: the machine is running, says so, and stays as it is,
with the request to stop that may have been made, and the run ends as it ends without. What was tried
is what was planned, in that order, as far as the run was suspended often enough. -/
theorem Machine.execute_besieged (m : Machine) (plan : List (List Intrusion)) (p : Program) :
    let besieged := m.executeBesieged plan p
    besieged.1 = m.execute p ∧
      (∀ i ∈ besieged.2.incidents, i.Harmless) ∧
      besieged.2.incidents.map (·.intrusion) ++ besieged.2.plan.flatten = plan.flatten := by
  intro besieged
  have hprogram : ∀ b, Escorted.Shows (Siege.Withstands plan.flatten)
      (Escorted.program Siege.command b) (Run.program b) :=
    Escorted.shows_program Siege.invariant_withstands Siege.shows_command fun s now =>
      Run.keeps_changeContext fun _ _ _ => ⟨rfl, rfl⟩
  have hstart : ∀ m' : Machine, m'.running = true → m'.phase = .running →
      Siege.Withstands plan.flatten (m', ⟨plan, []⟩) :=
    fun m' hr hp => ⟨⟨hr, hp⟩, fun _ hi => (nomatch hi), rfl⟩
  obtain ⟨he, hafter⟩ := m.executeEscorted_eq hprogram hstart p
  refine ⟨he, ?_⟩
  rcases hafter with h | ⟨m', h⟩
  · change besieged.2 = _ at h
    rw [h]
    exact ⟨fun _ hi => (nomatch hi), rfl⟩
  · exact ⟨h.harmless, h.planned⟩

/-- An intruder comes while a script waits, once a stop was asked for. -/
example :
    let p : Program := .ofStatements [.command ⟨1, 1⟩ (.wait ⟨1, 1⟩ (.number ⟨1, 6⟩ 2))]
    let m : Machine := { Machine.fresh {} {} 0 with alarms := [⟨1, .stop⟩] }
    (m.executeBesieged [[], [.execute p, .setContext m.context]] p).2.incidents.map
      (fun i => (i.before.stopRequested, i.after.stopRequested)) = [(true, true), (true, true)] := by
  decide +kernel

end AgentScript

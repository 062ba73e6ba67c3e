import AgentScript.Proofs.Context.Readings
import AgentScript.Proofs.Machine.Scripted

/-! What the readings at the start of a run can do to it. Trouble with reading never breaks a run
off, but a reading that has no value does. -/
namespace AgentScript

variable {β : Type}

namespace Machine

variable [Port β]

/-- The bot lets its instruments be read, but a reading has no value. -/
def Misreads (m : Machine β) (f : Fault) : Prop :=
  ∃ s m₁, Run.readGauges m = .ok s m₁ ∧ s.toVariables = .error f

/-- A machine and how its readings leave it: the time is written into its context, and so are the
variables that the readings define, unless the bot refuses to be read. -/
structure Refreshed (m m' : Machine β) : Prop where
  reads : Run.refresh m = .ok () m'
  time : m'.context.globals.find? "timestamp" =
    some (Context.systemBinding "timestamp" (.number m'.now))
  shows :
    (∃ s shown m₁, Run.readGauges m = .ok s m₁ ∧ s.toVariables = .ok shown ∧
      m'.context = m.context.showing shown m'.now) ∨
    ∃ t m₁, Run.readGauges m = .error (.trouble t) m₁ ∧ m'.context = m.context.showing [] m'.now ∧
      ∀ name ≠ "timestamp", m'.context.lookup? name = m.context.lookup? name

/-- Reading leaves the context alone and is never cut short. -/
theorem readGauges_cases [LawfulPort β] (m : Machine β) :
    (∃ s m₁, Run.readGauges m = .ok s m₁ ∧ m₁.context = m.context) ∨
    ∃ t m₁, Run.readGauges m = .error (.trouble t) m₁ ∧ m₁.context = m.context := by
  have hkept : (Run.readGauges.after m).context = m.context :=
    Run.law_readGauges (P := fun _ => Run.Keeps (OnContext Context.Same)) m
  cases h : Run.readGauges m with
  | ok s m₁ =>
    rw [Run.after_of_ok h] at hkept
    exact .inl ⟨s, m₁, rfl, hkept⟩
  | error halt m₁ =>
    rw [Run.after_of_error h] at hkept
    cases halt with
    | stopped => exact (Run.law_readGauges (P := fun _ => Run.Lasts) m m₁ h).elim
    | trouble t => exact .inr ⟨t, m₁, rfl, hkept⟩

theorem refresh_of_misread {m m₁ : Machine β} {s : Snapshot} {f : Fault}
    (hr : Run.readGauges m = .ok s m₁) (hs : s.toVariables = .error f) :
    Run.refresh m = .error (.trouble (.fault f)) m₁ := by
  rw [Run.refresh_of_read hr]
  refine Run.changeContext_error ?_
  rw [Context.update_some, hs]
  rfl

/-- Either a reading has no value, and nothing is written, or the readings come to their end. -/
theorem refresh_cases [LawfulPort β] (m : Machine β) :
    (∃ f m₁, m.Misreads f ∧ Run.refresh m = .error (.trouble (.fault f)) m₁ ∧
      m₁.context = m.context) ∨
    ∃ m', m.Refreshed m' := by
  rcases m.readGauges_cases with ⟨s, m₁, hr, hc⟩ | ⟨t, m₁, hr, hc⟩
  · cases hs : s.toVariables with
    | error f => exact .inl ⟨f, m₁, ⟨s, m₁, hr, hs⟩, refresh_of_misread hr hs, hc⟩
    | ok shown =>
      have hu : m₁.context.update (some s) m₁.now = .ok (m.context.showing shown m₁.now) := by
        rw [Context.update_some, hs, hc]
        rfl
      refine .inr ⟨{ m₁ with context := m.context.showing shown m₁.now }, ?_, ?_, ?_⟩
      · rw [Run.refresh_of_read hr]
        refine Run.changeContext_ok ?_
        rw [hu]
        rfl
      · exact Context.timestamp_showing _ _ _
      · exact .inl ⟨s, shown, m₁, hr, hs, rfl⟩
  · have hu : (m₁.context.update none m₁.now).mapError Trouble.fault =
        .ok (m.context.showing [] m₁.now) := by
      rw [hc]
      rfl
    have hw := (Run.refresh_of_trouble hr).trans (Run.changeContext_ok hu)
    refine .inr ⟨_, hw, Context.timestamp_showing _ _ _, .inr ⟨t, m₁, hr, rfl, fun name hn => ?_⟩⟩
    exact Context.lookup?_showing hn fun _ hx => nomatch hx

theorem Refreshed.not_misreads {m m' : Machine β} (h : m.Refreshed m') {f : Fault} :
    ¬ m.Misreads f := by
  rintro ⟨s, m₁, hr, hs⟩
  have he := refresh_of_misread hr hs
  rw [h.reads] at he
  cases he

end Machine

/-- What telemetry can do to a run of a source on an idle machine with any bot that keeps to itself.
The run breaks off exactly if the bot can be read but a reading has no value, and then no variable
has changed. Otherwise the time is written and the statements of the program run: with the variables
that the readings define, or with those of before if the bot refuses to be read. -/
theorem execute_withstands_telemetry [Port β] [LawfulPort β] {source : String} {p : Program}
    (hp : Program.ofSource source = .ok p) {m : Machine β} (hm : m.running = false) :
    ∃ m₀ list, m.Begins p m₀ (.statements list) ∧
      (∀ f, (m.execute p).1 = .error f ↔ m₀.Misreads f) ∧
      (∀ f, m₀.Misreads f → (m.execute p).2.context = m₀.context) ∧
      ((∀ f, ¬ m₀.Misreads f) →
        ∃ m₁, m₀.Refreshed m₁ ∧ m.execute p = Machine.ended (Run.statements list m₁)) := by
  have ho := Program.over_source hp
  obtain ⟨m₀, list, hbegins, -⟩ := m.exists_begins ho hm
  obtain ⟨_, hl, hs⟩ := hbegins.statements ho
  cases hl
  refine ⟨m₀, list, hbegins, ?_⟩
  rw [hbegins.execute_eq, Machine.runBody, Run.program]
  rcases m₀.refresh_cases with ⟨f, m₁, hf, hr, hc⟩ | ⟨m₁, hr⟩
  · have he : Machine.ended ((Run.refresh >>= fun _ => Run.block (.statements list)) m₀) =
        (.error f, m₁.finish .failed) := by
      rw [Run.bind_of_error hr]
      rfl
    have hunique : ∀ f', m₀.Misreads f' → f' = f := by
      rintro f' ⟨s, m₂, hr', hs'⟩
      have he' := Machine.refresh_of_misread hr' hs'
      rw [hr] at he'
      cases he'
      rfl
    rw [he]
    refine ⟨fun f' => ⟨?_, ?_⟩, fun _ _ => hc, fun hn => (hn f hf).elim⟩
    · rintro ⟨⟩
      exact hf
    · intro hf'
      rw [hunique f' hf']
  · have hscript := Run.scripted_statements (Run.scripted_all (β := β) list hs)
    rw [Run.bind_of_ok hr.reads]
    refine ⟨fun f => ⟨fun hf => ?_, fun hf => (hr.not_misreads hf).elim⟩,
      fun f hf => (hr.not_misreads hf).elim, fun _ => ⟨m₁, hr, rfl⟩⟩
    change (Machine.ended (Run.statements list m₁)).1 = .error f at hf
    cases h : Run.statements list m₁ with
    | ok u m' =>
      rw [h] at hf
      cases hf
    | error halt m' =>
      rw [h] at hf
      cases halt with
      | stopped => cases hf
      | trouble t =>
        obtain ⟨e, rfl⟩ := hscript h
        cases hf

/-- A bot that has lost its connection shows no vital signs, and its script runs on. -/
theorem execute_withstands_telemetry_lost :
    let m : Machine := .fresh { refusals := [(.vitals, .fault ⟨.connection, "lost"⟩)] } {} 0
    let p : Program := .ofStatements [.command ⟨1, 1⟩ (.say ⟨1, 1⟩ (.string ⟨1, 5⟩ "hello"))]
    Program.ofSource "say \"hello\"" = .ok p ∧ m.running = false ∧
      ∃ m₀ list, m.Begins p m₀ (.statements list) ∧
        (∀ f, (m.execute p).1 = .error f ↔ m₀.Misreads f) ∧
        (∀ f, m₀.Misreads f → (m.execute p).2.context = m₀.context) ∧
        ((∀ f, ¬ m₀.Misreads f) →
          ∃ m₁, m₀.Refreshed m₁ ∧ m.execute p = Machine.ended (Run.statements list m₁)) := by
  intro m p
  have hp : Program.ofSource "say \"hello\"" = .ok p := by
    cbv
  exact ⟨hp, rfl, execute_withstands_telemetry hp rfl⟩

/-- A level that is no number breaks the run off before its first statement. -/
theorem huge_level_breaks_off :
    let m : Machine := .fresh
      { vitals := { health := .int 20, hunger := .int 20, experienceLevel := .int (10 ^ 400) } } {} 0
    let p : Program := .ofStatements [.command ⟨1, 1⟩ (.say ⟨1, 1⟩ (.string ⟨1, 5⟩ "hello"))]
    Program.ofSource "say \"hello\"" = .ok p ∧ m.running = false ∧
      (m.execute p).1 = .error ⟨.overflow, "int too large to convert to float"⟩ ∧
      (m.execute p).2.bot.messages = #[] := by
  intro m p
  have hp : Program.ofSource "say \"hello\"" = .ok p := by
    cbv
  exact ⟨hp, rfl, by decide +kernel, by decide +kernel⟩

end AgentScript

import AgentScript.Proofs.Machine.Escort
import AgentScript.Proofs.Machine.Touch

/-! The history of a run: the commands that it carried out, in their order. Apart from them a run
does nothing to the world but to read the instruments of the bot. -/
namespace AgentScript

open RunOn (after)

/-- A command that was carried out: the machine before it, its result if it came to one, and the
machine that it left. -/
structure Deed where
  command : Command
  before : Machine
  result : Option CommandResult
  after : Machine

namespace Deed

def carryOut (c : Command) : Escorted (List Deed) CommandResult := fun s =>
  match Run.command c s.1 with
  | .ok result m => .ok result (m, s.2 ++ [⟨c, s.1, some result, m⟩])
  | .error halt m => .error halt (m, s.2 ++ [⟨c, s.1, none, m⟩])

/-- What is taken down is what carrying out the command does. -/
def Real (d : Deed) : Prop :=
  match d.result with
  | some result => Run.command d.command d.before = .ok result d.after
  | none => ∃ halt, Run.command d.command d.before = .error halt d.after

theorem Real.after_eq {d : Deed} (h : d.Real) :
    (Run.command d.command).after d.before = d.after := by
  unfold Real at h
  cases hr : d.result with
  | some result =>
    rw [hr] at h
    exact Run.after_of_ok h
  | none =>
    rw [hr] at h
    exact Run.after_of_error h.choose_spec

end Deed

namespace Machine

def SameSettings (m m' : Machine) : Prop := m'.settings = m.settings

instance : Run.AllowsBot SameSettings where
  refl _ := rfl
  trans h h' := Eq.trans h' h
  output _ _ := rfl
  wait m time := by
    obtain ⟨flag, probes, later, he, -⟩ := m.waitUntil_eq time
    rw [SameSettings, he]
  record m call := by
    obtain ⟨flag, at?, he, -⟩ := m.record_eq call
    rw [SameSettings, he]
  effect _ _ _ := rfl

/-- Nothing was done to the bot of a machine but to read its instruments. -/
def Idles (m m' : Machine) : Prop :=
  m'.settings = m.settings ∧
    ∃ calls : List Call, (∀ call ∈ calls, call = .vitals) ∧ m'.bot = m.bot.recording calls

theorem Idles.of_bot {m m' : Machine} (hs : m'.settings = m.settings) (hb : m'.bot = m.bot) :
    m.Idles m' :=
  ⟨hs, [], fun _ h => (nomatch h), hb.trans m.bot.recording_nil.symm⟩

theorem Idles.spared {m m' : Machine} (h : m.Idles m') : m.bot.Spared m'.bot := by
  obtain ⟨-, calls, -, hb⟩ := h
  exact .of_recording hb

theorem Idles.refl (m : Machine) : m.Idles m := .of_bot rfl rfl

theorem Idles.trans {m₁ m₂ m₃ : Machine} (h : m₁.Idles m₂) (h' : m₂.Idles m₃) : m₁.Idles m₃ := by
  obtain ⟨hs, calls, hv, hb⟩ := h
  obtain ⟨hs', calls', hv', hb'⟩ := h'
  refine ⟨hs'.trans hs, calls ++ calls', fun call hc => ?_, ?_⟩
  · exact (List.mem_append.mp hc).elim (hv call) (hv' call)
  · rw [hb', hb, Bot.recording_recording]

/-- What the end of a run makes of the bot of a machine: it keeps the error that it reported. -/
def Settles (m m' : Machine) : Prop :=
  m'.settings = m.settings ∧ (m'.bot = m.bot ∨ ∃ e, m'.bot = m.bot.settle e)

/-- Nothing of the bot is another but its refusals. -/
theorem Settles.bot_eq {m m' : Machine} (h : m.Settles m') :
    ∃ refusals, m'.bot = { m.bot with refusals := refusals } := by
  obtain ⟨-, hb | ⟨e, hb⟩⟩ := h
  · exact ⟨m.bot.refusals, hb⟩
  · rw [hb, Bot.settle]
    split
    · exact ⟨_, rfl⟩
    · exact ⟨m.bot.refusals, rfl⟩

theorem ended_settles (part : Run Unit) (m : Machine) :
    (part.after m).Settles (ended (part m)).2 := by
  unfold after
  cases part m with
  | ok _ m' => exact ⟨rfl, .inl rfl⟩
  | error halt m' =>
    cases halt with
    | stopped => exact ⟨rfl, .inl rfl⟩
    | trouble t =>
      cases t with
      | error e => exact ⟨rfl, .inr ⟨e, rfl⟩⟩
      | fault f => exact ⟨rfl, .inl rfl⟩

end Machine

/-- The deeds that take one machine to another. -/
def Course (m : Machine) : List Deed → Machine → Prop
  | [], m' => m.Idles m'
  | d :: deeds, m' => m.Idles d.before ∧ d.Real ∧ Course d.after deeds m'

namespace Course

variable {m m' m'' : Machine} {deeds : List Deed}

theorem idles (h : Course m deeds m') (hi : m'.Idles m'') : Course m deeds m'' := by
  induction deeds generalizing m with
  | nil => exact h.trans hi
  | cons d deeds ih => exact ⟨h.1, h.2.1, ih h.2.2⟩

/-- One more deed. -/
theorem snoc (h : Course m deeds m') {d : Deed} (hb : d.before = m') (hd : d.Real) :
    Course m (deeds ++ [d]) d.after := by
  induction deeds generalizing m with
  | nil =>
    rw [← hb] at h
    exact ⟨h, hd, .refl _⟩
  | cons first deeds ih => exact ⟨h.1, h.2.1, ih h.2.2⟩

/-- What is so from the start and stays so whatever is done or read, is so before every deed and at
the end. -/
theorem keeps {J : Machine → Prop} (hidle : ∀ m m' : Machine, m.Idles m' → J m → J m')
    (hdeed : ∀ d : Deed, d.Real → J d.before → J d.after) (h : Course m deeds m') (hm : J m) :
    (∀ d ∈ deeds, J d.before) ∧ J m' := by
  induction deeds generalizing m with
  | nil => exact ⟨fun _ hd => (nomatch hd), hidle _ _ h hm⟩
  | cons d deeds ih =>
    obtain ⟨hi, hd, hrest⟩ := h
    have hbefore := hidle _ _ hi hm
    obtain ⟨hall, hend⟩ := ih hrest (hdeed d hd hbefore)
    refine ⟨fun d' hd' => ?_, hend⟩
    rcases List.mem_cons.mp hd' with rfl | hd'
    · exact hbefore
    · exact hall d' hd'

theorem real (h : Course m deeds m') : ∀ d ∈ deeds, d.Real := by
  induction deeds generalizing m with
  | nil => exact fun _ hd => (nomatch hd)
  | cons d deeds ih =>
    intro d' hd
    rcases List.mem_cons.mp hd with rfl | hd
    · exact h.2.1
    · exact ih h.2.2 d' hd

/-- The settings stay what they are. -/
theorem settings (h : Course m deeds m') : ∀ d ∈ deeds, d.before.settings = m.settings := by
  refine (h.keeps (J := fun m₁ => m₁.settings = m.settings) (fun _ _ hi hs => hi.1.trans hs)
    (fun d hd hs => ?_) rfl).1
  have hc := Run.law_command (P := fun _ => Run.Keeps Machine.SameSettings) d.command d.before
  rw [hd.after_eq] at hc
  exact hc.trans hs

end Course

namespace Run

open Machine (Idles)

instance : AllowsQuiet Idles where
  refl := .refl
  trans := .trans
  output _ _ := .of_bot rfl rfl
  wait m time := by
    obtain ⟨flag, probes, later, he, -⟩ := m.waitUntil_eq time
    rw [he]
    exact .of_bot rfl rfl
  last _ _ := .of_bot rfl rfl
  count _ := .of_bot rfl rfl
  define _ _ _ _ _ _ := .of_bot rfl rfl
  assign _ _ _ _ _ := .of_bot rfl rfl
  scope _ _ h := h

theorem idles_record (m : Machine) : m.Idles (m.record .vitals) := by
  have hs : (m.record .vitals).settings = m.settings := by
    obtain ⟨flag, at?, he, -⟩ := m.record_eq .vitals
    rw [he]
  exact ⟨hs, [.vitals], fun _ hc => List.mem_singleton.mp hc, m.record_bot .vitals⟩

theorem idles_read (panel : Panel) : Keeps Idles (Port.call (.read panel)) := by
  have hp : (Port.call (.read panel) : Run (Gauge → Json)) = readPanel panel := rfl
  rw [hp, readPanel]
  split
  · refine keeps_bind (keeps_bind idles_record fun _ => ?_) fun _ => ?_
    · exact law_ask (P := fun _ => Keeps Idles) (·.ask .vitals)
    · exact law_ask (P := fun _ => Keeps Idles) (·.readPanel panel)
  · exact law_ask (P := fun _ => Keeps Idles) (·.readPanel panel)

theorem idles_refresh : Keeps Idles refresh :=
  law_refresh_of (P := fun _ => Keeps Idles) idles_read fun _ _ =>
    keeps_changeContext fun _ _ _ => .of_bot rfl rfl

end Run

/-- The deeds taken down so far took a machine to where it is. -/
def Underway (start : Machine) (s : Machine × List Deed) : Prop := Course start s.2 s.1

theorem invariant_underway (start : Machine) :
    Escorted.Invariant Machine.Idles (Underway start) where
  kept hi h := Course.idles h hi
  context _ h := Course.idles h (.of_bot rfl rfl)

theorem Deed.shows_carryOut (start : Machine) (c : Command) :
    Escorted.Shows (Underway start) (carryOut c) (Run.command c) := by
  intro s hs
  unfold carryOut
  cases h : Run.command c s.1 with
  | ok result m => exact ⟨rfl, hs.snoc (d := ⟨c, s.1, some result, m⟩) rfl h⟩
  | error halt m => exact ⟨rfl, hs.snoc (d := ⟨c, s.1, none, m⟩) rfl ⟨halt, h⟩⟩

theorem Escorted.after_of_erase {α γ : Type} {r : EStateM.Result Halt (Machine × γ) α}
    {part : Run α} {m : Machine} (h : erase r = part m) : part.after m = (left r).1 := by
  unfold RunOn.after
  rw [← h]
  cases r <;> rfl

namespace Machine

def history (m : Machine) (p : Program) : List Deed := (m.executeEscorted Deed.carryOut [] p).2

/-- To take down the commands of a run does not change it, and they make up its course, from a
machine with the bot that the run begins with to one with the bot that it ends with. -/
theorem execute_history (m : Machine) (p : Program) :
    (m.executeEscorted Deed.carryOut [] p).1 = m.execute p ∧
      ∃ m₀ m₁ : Machine, m.Idles m₀ ∧ Course m₀ (m.history p) m₁ ∧ m₁.Settles (m.execute p).2 := by
  have nothing : ∃ m₀ m₁ : Machine, m.Idles m₀ ∧ Course m₀ [] m₁ ∧ m₁.Settles m :=
    ⟨m, m, .refl m, .refl m, rfl, .inl rfl⟩
  unfold history executeEscorted execute
  cases hb : m.begin with
  | error f => exact ⟨rfl, nothing⟩
  | ok m' =>
    have hm : m.Idles m' := by
      rw [begin_eq hb]
      exact .of_bot rfl rfl
    have begun : ∃ m₀ m₁ : Machine, m.Idles m₀ ∧ Course m₀ [] m₁ ∧ m₁.Settles m' :=
      ⟨m', m', hm, .refl m', rfl, .inl rfl⟩
    cases p.body with
    | error f => exact ⟨rfl, begun⟩
    | ok body =>
      cases p.size with
      | error f => exact ⟨rfl, begun⟩
      | ok n =>
        dsimp only
        generalize hm₀ :
          m'.log .info ("Executing program with " ++ toString n ++ " statements") = m₀
        have hstart : m.Idles m₀ := by
          rw [← hm₀]
          exact hm.trans (.of_bot rfl rfl)
        obtain ⟨he, hcourse⟩ := Escorted.shows_program_of (invariant_underway m₀)
          (Deed.shows_carryOut m₀) Run.idles_refresh body (m₀, []) (.refl m₀)
        rw [he]
        refine ⟨rfl, m₀, _, hstart, hcourse, ?_⟩
        rw [← Escorted.after_of_erase he]
        exact ended_settles (Run.program body) m₀

end Machine

end AgentScript

import AgentScript.Proofs.Machine.Cause
import AgentScript.Proofs.Machine.Keeps
import AgentScript.Proofs.Machine.Steps

/-! Two runs side by side. A tie tells what goes together in them: places, names, errors, contexts,
bots and lines of output. Everything else in two machines that are tied is the same, and what is true
of all parts of two runs is that tied machines stay tied. -/
namespace AgentScript

variable {α β γ : Type}

namespace Machine

def swap (m : Machine β) (bot : β) (context : Context) (lines : Array Line) : Machine β :=
  { m with bot := bot, context := context, output := lines }

theorem swap_run (m : Machine β) (errand : Errand) (bot : β) (context : Context)
    (lines : Array Line) :
    (m.swap bot context lines).run errand = (m.run errand).swap bot context lines := by
  cases errand with
  | stop => rfl
  | probe =>
    have hlook : (m.swap bot context lines).look = m.look := by
      unfold look setContext begin swap
      dsimp only
      split <;> rfl
    unfold run
    dsimp only
    rw [hlook]
    rfl

theorem swap_foldl_run (due : List Alarm) (m : Machine β) (bot : β) (context : Context)
    (lines : Array Line) :
    due.foldl (fun m a => m.run a.errand) (m.swap bot context lines) =
      (due.foldl (fun m a => m.run a.errand) m).swap bot context lines := by
  induction due generalizing m with
  | nil => rfl
  | cons a due ih => rw [List.foldl_cons, List.foldl_cons, swap_run, ih]

theorem swap_waitUntil (m : Machine β) (bot : β) (context : Context) (lines : Array Line)
    (time : Float) :
    (m.swap bot context lines).waitUntil time = (m.waitUntil time).swap bot context lines := by
  have hring : (m.swap bot context lines).ring time = (m.ring time).swap bot context lines :=
    swap_foldl_run _ { m with alarms := _ } bot context lines
  unfold waitUntil
  dsimp only
  rw [hring]
  by_cases h : (m.ring time).clock < time
  · rw [if_pos h, if_pos (show ((m.ring time).swap bot context lines).clock < time from h)]
    rfl
  · rw [if_neg h, if_neg (show ¬ ((m.ring time).swap bot context lines).clock < time from h)]

theorem swap_countDown (m : Machine β) (bot : β) (context : Context) (lines : Array Line)
    (request : Request) :
    (m.swap bot context lines).countDown request =
      (m.countDown request).swap bot context lines := by
  have hat : (m.swap bot context lines).stopAt = m.stopAt := rfl
  unfold countDown
  rw [hat]
  cases m.stopAt with
  | none => rfl
  | some x =>
    dsimp only
    split
    · rfl
    · split <;> rfl

end Machine

/-- What goes together in two runs. Foreign errors are errors that the bot reports; they have to be
the same in both. -/
structure Tie (β : Type) where
  places : Location → Location → Prop
  labels : Label → Label → Prop
  errors : ScriptError → ScriptError → Prop
  foreign : ScriptError → Prop
  contexts : Context → Context → Prop
  bots : β → β → Prop
  outputs : Array Line → Array Line → Prop

namespace Tie

variable (T : Tie β)

inductive Troubles : Trouble → Trouble → Prop
  | error {e e' : ScriptError} (h : T.errors e e') : Troubles (.error e) (.error e')
  | fault (f : Fault) : Troubles (.fault f) (.fault f)

/-- Trouble that is not the script's own. -/
inductive Foreign : Trouble → Trouble → Prop
  | error {e : ScriptError} (h : T.foreign e) : Foreign (.error e) (.error e)
  | fault (f : Fault) : Foreign (.fault f) (.fault f)

inductive Machines (m : Machine β) : Machine β → Prop
  | swap {bot : β} {context : Context} {lines : Array Line} (hb : T.bots m.bot bot)
    (hc : T.contexts m.context context) (ho : T.outputs m.output lines) :
    Machines m (m.swap bot context lines)

/-- Two parts end alike, on tied machines. -/
inductive Ends (H : Trouble → Trouble → Prop) :
    EStateM.Result Halt (Machine β) α → EStateM.Result Halt (Machine β) α → Prop
  | ok {m m' : Machine β} (a : α) (h : T.Machines m m') : Ends H (.ok a m) (.ok a m')
  | trouble {m m' : Machine β} {t t' : Trouble} (ht : H t t') (h : T.Machines m m') :
    Ends H (.error (.trouble t) m) (.error (.trouble t') m')
  | stopped {m m' : Machine β} (h : T.Machines m m') :
    Ends H (.error .stopped m) (.error .stopped m')

/-- Two parts that do the same, but for what may differ in the script. -/
def Twins (part part' : RunOn β α) : Prop :=
  ∀ ⦃m m' : Machine β⦄, T.Machines m m' → T.Ends T.Troubles (part m) (part' m')

/-- A part that does the very same on tied machines. -/
def Level (α : Type) (part : RunOn β α) : Prop :=
  ∀ ⦃m m' : Machine β⦄, T.Machines m m' → T.Ends T.Foreign (part m) (part m')

inductive Agree (V : α → α → Prop) : Except Trouble α → Except Trouble α → Prop
  | ok {a a' : α} (h : V a a') : Agree V (.ok a) (.ok a')
  | error {t t' : Trouble} (h : T.Troubles t t') : Agree V (.error t) (.error t')

/-- A tie that holds over what parts of a run do without the bot and without the context. -/
class Steady (T : Tie β) : Prop where
  push : ∀ {lines lines' : Array Line} (line : Line), T.outputs lines lines' →
    T.outputs (lines.push line) (lines'.push line)
  locate : ∀ {e : ScriptError} (l : Location), T.foreign e → T.foreign (e.locate l)

variable {T}

theorem ends_bind {H : Trouble → Trouble → Prop} {part part' : RunOn β α}
    {f f' : α → RunOn β γ} {m m' : Machine β} (hp : T.Ends H (part m) (part' m'))
    (hf : ∀ a ⦃m m' : Machine β⦄, T.Machines m m' → T.Ends H (f a m) (f' a m')) :
    T.Ends H ((part >>= f) m) ((part' >>= f') m') := by
  change T.Ends H (EStateM.bind part f m) (EStateM.bind part' f' m')
  unfold EStateM.bind
  generalize part m = r at hp ⊢
  generalize part' m' = r' at hp ⊢
  cases hp with
  | ok a hm => exact hf a hm
  | trouble ht hm => exact .trouble ht hm
  | stopped hm => exact .stopped hm

theorem ends_locate {H : Trouble → Trouble → Prop} {part part' : RunOn β α} {l l' : Location}
    {m m' : Machine β} (hp : T.Ends H (part m) (part' m'))
    (hl : ∀ ⦃t t' : Trouble⦄, H t t' → H (t.locate l) (t'.locate l')) :
    T.Ends H (Run.locate l part m) (Run.locate l' part' m') := by
  unfold Run.locate
  generalize part m = r at hp ⊢
  generalize part' m' = r' at hp ⊢
  cases hp with
  | ok a hm => exact .ok a hm
  | trouble ht hm => exact .trouble (hl ht) hm
  | stopped hm => exact .stopped hm

theorem Machines.bots {m m' : Machine β} (h : T.Machines m m') : T.bots m.bot m'.bot := by
  obtain ⟨hb, hc, ho⟩ := h
  exact hb

theorem Machines.context {m m' : Machine β} (h : T.Machines m m') :
    T.contexts m.context m'.context := by
  obtain ⟨hb, hc, ho⟩ := h
  exact hc

theorem Machines.log [T.Steady] {m m' : Machine β} (h : T.Machines m m') (level : LogLevel)
    (text : String) : T.Machines (m.log level text) (m'.log level text) := by
  obtain ⟨hb, hc, ho⟩ := h
  exact ⟨hb, hc, Steady.push (.log level m.clock text) ho⟩

/-- A step that leaves all that may differ, and depends on none of it, leads to tied machines. -/
theorem Machines.step {f : Machine β → Machine β} {m m' : Machine β} (h : T.Machines m m')
    (hswap : ∀ bot context lines, f (m.swap bot context lines) = (f m).swap bot context lines)
    (hbot : (f m).bot = m.bot) (hcontext : (f m).context = m.context)
    (houtput : (f m).output = m.output) : T.Machines (f m) (f m') := by
  obtain ⟨hb, hc, ho⟩ := h
  rw [hswap]
  refine ⟨?_, ?_, ?_⟩
  · rwa [hbot]
  · rwa [hcontext]
  · rwa [houtput]

theorem Machines.waitUntil {m m' : Machine β} (h : T.Machines m m') (time : Float) :
    T.Machines (m.waitUntil time) (m'.waitUntil time) := by
  have hswap := fun bot context lines => m.swap_waitUntil bot context lines time
  obtain ⟨flag, probes, later, he, -⟩ := m.waitUntil_eq time
  apply h.step hswap <;> rw [he]

theorem Machines.countDown {m m' : Machine β} (h : T.Machines m m') (request : Request) :
    T.Machines (m.countDown request) (m'.countDown request) := by
  have hswap := fun bot context lines => m.swap_countDown bot context lines request
  obtain ⟨flag, at?, he, -⟩ := m.countDown_eq request
  apply h.step hswap <;> rw [he]

theorem Foreign.locate [T.Steady] {t t' : Trouble} (h : T.Foreign t t') (l : Location) :
    T.Foreign (t.locate l) (t'.locate l) := by
  cases h with
  | error h => exact .error (Steady.locate l h)
  | fault f => exact .fault f

instance [T.Steady] : Run.StepLaw T.Level where
  pure a _ _ h := .ok a h
  fault f _ _ h := .trouble (.fault f) h
  bind hp hf _ _ h := ends_bind (hp h) fun a _ _ h => hf a h
  consult {_ f} hr hf m m' h := by
    have he : f m' = f m := by
      obtain ⟨hb, hc, ho⟩ := h
      exact hr m _ rfl rfl
    change T.Ends T.Foreign (f m m) (f m' m')
    rw [he]
    exact hf m h
  attempt {_ part} hp m m' h := by
    have hm := hp h
    unfold Run.attempt
    generalize part m = r at hm ⊢
    generalize part m' = r' at hm ⊢
    cases hm with
    | ok a hm => exact .ok _ hm
    | trouble ht hm =>
      cases ht with
      | error he => exact .ok _ hm
      | fault f => exact .ok _ hm
    | stopped hm => exact .stopped hm
  locate l hp _ _ h := ends_locate (hp h) fun _ _ ht => ht.locate l
  log level text _ _ h := .ok () (h.log level text)
  wait time m m' h := by
    have hc : m'.clock = m.clock := by
      obtain ⟨hb, hc, ho⟩ := h
      rfl
    change T.Ends T.Foreign (.ok () (m.waitUntil (time m.clock))) (.ok () (m'.waitUntil (time m'.clock)))
    rw [hc]
    exact .ok () (h.waitUntil _)

/-- A tie that holds over everything that two programs do that match. -/
class Lawful [Port β] (T : Tie β) : Prop extends Steady T where
  /-- Lines may tell the place of a statement. -/
  tell : ∀ {lines lines' : Array Line} {l l' : Location} (line : Location → Line),
    T.outputs lines lines' → T.places l l' → T.outputs (lines.push (line l)) (lines'.push (line l'))
  call : ∀ {α : Type} (operation : Operation α), T.Level α (Port.call operation)
  foreign : ∀ {e : ScriptError}, T.foreign e → T.errors e e
  own : ∀ {c : Cause}, c.own → T.errors { cause := c } { cause := c }
  located : ∀ {e e' : ScriptError} {l l' : Location}, T.errors e e' → T.places l l' →
    T.errors (e.locate l) (e'.locate l')
  read : ∀ {c c' : Context} {n n' : Label}, T.contexts c c' → T.labels n n' →
    T.Agree Eq (c.read n) (c'.read n')
  declare : ∀ {c c' : Context} {n n' : Label} {l l' : Location} (v : Value), T.contexts c c' →
    T.labels n n' → T.places l l' → T.Agree T.contexts (c.declare n v l) (c'.declare n' v l')
  assign : ∀ {c c' : Context} {n n' : Label} (v : Value), T.contexts c c' → T.labels n n' →
    T.Agree T.contexts (c.assign n v) (c'.assign n' v)
  /-- Iterations are counted in a scope that is open for nothing else yet. -/
  index : ∀ {c c' : Context} (v : Value), T.contexts c c' →
    T.Agree T.contexts ((c.enter.define Run.indexName v .local false ⟨0, 0⟩).mapError .error)
      ((c'.enter.define Run.indexName v .local false ⟨0, 0⟩).mapError .error)
  enter : ∀ {c c' : Context}, T.contexts c c' → T.contexts c.enter c'.enter
  exit : ∀ {c c' : Context}, T.contexts c c' → T.contexts c.exit c'.exit
  countStatement : ∀ {c c' : Context}, T.contexts c c' →
    T.contexts c.countStatement c'.countStatement
  countCommand : ∀ {c c' : Context}, T.contexts c c' → T.contexts c.countCommand c'.countCommand

instance [Port β] [T.Lawful] : Run.PortLaw T.Level where
  call := Lawful.call

end Tie

end AgentScript

import AgentScript.Proofs.Bot.Tie
import AgentScript.Proofs.Context.Recast
import AgentScript.Proofs.Machine.Outcome
import AgentScript.Proofs.Machine.Twin

/-! Scripts recast: other names for the variables, other places, and the same doings otherwise. A
recasting says what may differ, and it ties every run of a script to a run of the script recast. -/
namespace AgentScript

variable {α β : Type}

/-- Causes that have nothing to do with a variable. -/
def Cause.nameless : Cause → Bool
  | undefined _ | readonly _ => false
  | _ => true

def Tie.apart (c c' : Context) : Tie β where
  places _ _ := True
  labels _ _ := True
  errors _ _ := True
  foreign e := e.cause.nameless
  contexts a a' := a = c ∧ a' = c'
  bots b b' := b' = b
  outputs _ _ := True

/-- A bot that neither sees nor touches the variables of a run, reports no errors about them, and keeps
an error only if it was the one to report it. -/
class AloofPort (β : Type) [Port β] : Prop extends LawfulPort β where
  level : ∀ {α : Type} (operation : Operation α) (c c' : Context),
    (Tie.apart c c').Level α (Port.call operation : RunOn β α)
  settle : ∀ {e : ScriptError} (b : β), (∀ request text, e.cause ≠ .refused request text) →
    Port.settle e b = b

instance (c c' : Context) : (Tie.apart c c').Worldly where
  push _ _ := trivial
  locate l h := by
    change (ScriptError.locate _ l).cause.nameless
    rw [ScriptError.cause_locate]
    exact h
  rest h := by
    cases h
    rfl
  record _ h := by
    cases h
    rfl
  effect _ _ h := by
    cases h
    rfl
  refused := by
    intro b b' request e _ he
    unfold Bot.ask at he
    split at he
    · next refusal _ =>
      cases refusal with
      | fault f => cases he
      | failure text line column =>
        cases he
        rfl
    · cases he

instance : AloofPort Bot where
  level operation c c' := Tie.level_operate operation
  settle := by
    intro e b he
    change b.settle e = b
    unfold Bot.settle
    split
    · next hc => exact (he _ _ hc).elim
    · rfl

/-- An aloof bot answers alike in two runs on it, and their contexts are those of before. -/
theorem Tie.ends_call [Port β] [AloofPort β] {T : Tie β} (operation : Operation α)
    {m m' : Machine β} (hm : T.Machines m m') (hbot : m'.bot = m.bot)
    (hbots : T.bots ((Port.call operation).after m).bot ((Port.call operation).after m).bot)
    (hforeign : ∀ {n e}, Port.call operation m = .error (.trouble (.error e)) n → T.foreign e)
    (houtputs : ∀ lines lines', T.outputs lines lines') :
    T.Ends T.Foreign (Port.call operation m) (Port.call operation m') := by
  have hc := hm.context
  have hapart : (Tie.apart m.context m'.context).Machines m m' := by
    obtain ⟨-, -, -⟩ := hm
    exact ⟨hbot, ⟨rfl, rfl⟩, trivial⟩
  have hends := AloofPort.level operation m.context m'.context hapart
  have back : ∀ {n n' : Machine β}, (Tie.apart m.context m'.context).Machines n n' →
      T.bots n.bot n.bot → T.Machines n n' := by
    intro n n' hn hq
    obtain ⟨hb, hcc, -⟩ := hn
    refine ⟨?_, ?_, houtputs _ _⟩
    · rw [hb]
      exact hq
    · rw [hcc.1, hcc.2]
      exact hc
  unfold RunOn.after at hbots
  cases hr : Port.call operation m with
  | ok a n =>
    rw [hr] at hends hbots
    generalize Port.call operation m' = r' at hends ⊢
    cases hends with
    | ok _ hn => exact .ok a (back hn hbots)
  | error halt n =>
    rw [hr] at hends hbots
    generalize Port.call operation m' = r' at hends ⊢
    cases hends with
    | stopped hn => exact .stopped (back hn hbots)
    | trouble ht hn =>
      cases ht with
      | fault f => exact .trouble (.fault f) (back hn hbots)
      | error _ => exact .trouble (.error (hforeign hr)) (back hn hbots)

/-- A way to recast scripts and what makes it one: how names change, which places and errors go
together, and which bots it is for. -/
structure Recasting (β : Type) [Port β] where
  rename : String → String
  labels : Label → Label → Prop
  places : Location → Location → Prop
  /-- The places that variables keep of their definitions. -/
  definitions : Location → Location → Prop
  errors : ScriptError → ScriptError → Prop
  /-- The errors that a bot may report. -/
  foreign : ScriptError → Prop
  bots : β → Prop
  injective : Function.Injective rename
  index : rename Run.indexName = Run.indexName
  reading : ∀ n ∈ readingNames, rename n = n
  labelled : ∀ {n n' : Label}, labels n n' → n.Renames rename n'
  placed : ∀ {l l' : Location}, places l l' → definitions l l'
  nowhere : definitions ⟨0, 0⟩ ⟨0, 0⟩
  own : ∀ {c : Cause}, c.own → errors { cause := c } { cause := c }
  undefined : ∀ n, errors { cause := .undefined n } { cause := .undefined (rename n) }
  readonly : ∀ n, errors { cause := .readonly n } { cause := .readonly (rename n) }
  refusal : ∀ n {l l' : Location}, places l l' →
    errors (Context.refusal n l) (Context.refusal (rename n) l')
  located : ∀ {e e' : ScriptError} {l l' : Location}, errors e e' → places l l' →
    errors (e.locate l) (e'.locate l')
  reported : ∀ {e : ScriptError}, foreign e → errors e e
  relocated : ∀ {e : ScriptError} (l : Location), foreign e → foreign (e.locate l)
  settled : ∀ {e e' : ScriptError} {b : β}, errors e e' → bots b →
    Port.settle e' b = Port.settle e b ∧ bots (Port.settle e b)
  keeps : ∀ {α : Type} (operation : Operation α) {m : Machine β}, bots m.bot →
    bots ((Port.call operation).after m).bot
  reports : ∀ {α : Type} (operation : Operation α) {m m' : Machine β} {e : ScriptError},
    bots m.bot → Port.call operation m = .error (.trouble (.error e)) m' → foreign e

namespace Recasting

variable [Port β] (R : Recasting β)

inductive Texts : String → String → Prop
  | same (s : String) : Texts s s
  | error {e e' : ScriptError} (h : R.errors e e') : Texts e.text e'.text

def tie : Tie β where
  places := R.places
  labels := R.labels
  errors := R.errors
  foreign := R.foreign
  contexts := Context.Recast R.rename R.definitions R.Texts
  bots b b' := b' = b ∧ R.bots b
  outputs _ _ := True

instance : R.tie.Steady where
  push _ _ := trivial
  locate := R.relocated

theorem level_call [AloofPort β] (operation : Operation α) :
    R.tie.Level α (Port.call operation) := by
  intro m m' hm
  have hb : m'.bot = m.bot ∧ R.bots m.bot := hm.bots
  exact Tie.ends_call operation hm hb.1 ⟨rfl, R.keeps operation hb.2⟩ (R.reports operation hb.2)
    fun _ _ => trivial

theorem agree_read {c c' : Context} {n n' : Label} (hc : R.tie.contexts c c')
    (hn : R.labels n n') : R.tie.Agree Eq (c.read n) (c'.read n') := by
  replace hn := R.labelled hn
  cases hk : n.key with
  | error f =>
    unfold Context.read
    rw [hn.key, hk]
    exact .error (.fault f)
  | ok key =>
    have hk' : n'.key = .ok (R.rename key) := by
      rw [hn.key, hk]
      rfl
    have hl := hc.lookup? R.injective key
    rw [Context.read_eq hk, Context.read_eq hk', hn.text]
    generalize c.lookup? key = b at hl ⊢
    generalize c'.lookup? (R.rename key) = b' at hl ⊢
    cases hl with
    | none => exact .error (.error (R.undefined n.text))
    | some hb => exact .ok hb.value.symm

/-- A definition by key, as a script or a loop makes it. -/
theorem agree_define {c c' : Context} (hc : R.tie.contexts c c') (key : String) (v : Value)
    {l l' : Location} (hl : R.definitions l l')
    (he : R.errors (Context.refusal key l) (Context.refusal (R.rename key) l')) :
    R.tie.Agree R.tie.contexts ((c.define key v .local false l).mapError .error)
      ((c'.define (R.rename key) v .local false l').mapError .error) := by
  rcases hc.define R.injective key v hl with ⟨hd, hd'⟩ | ⟨d, d', hd, hd', hdd⟩
  · rw [hd, hd']
    exact .error (.error he)
  · rw [hd, hd']
    exact .ok hdd

theorem agree_declare {c c' : Context} {n n' : Label} {l l' : Location} (v : Value)
    (hc : R.tie.contexts c c') (hn : R.labels n n') (hl : R.places l l') :
    R.tie.Agree R.tie.contexts (c.declare n v l) (c'.declare n' v l') := by
  replace hn := R.labelled hn
  cases hk : n.key with
  | error f =>
    unfold Context.declare
    rw [hn.key, hk]
    exact .error (.fault f)
  | ok key =>
    have hk' : n'.key = .ok (R.rename key) := by
      rw [hn.key, hk]
      rfl
    rw [Context.declare_eq hk, Context.declare_eq hk']
    exact R.agree_define hc key v (R.placed hl) (R.refusal key hl)

theorem agree_assign {c c' : Context} {n n' : Label} (v : Value) (hc : R.tie.contexts c c')
    (hn : R.labels n n') : R.tie.Agree R.tie.contexts (c.assign n v) (c'.assign n' v) := by
  replace hn := R.labelled hn
  cases hk : n.key with
  | error f =>
    unfold Context.assign
    rw [hn.key, hk]
    exact .error (.fault f)
  | ok key =>
    have hk' : n'.key = .ok (R.rename key) := by
      rw [hn.key, hk]
      rfl
    rw [Context.assign_eq hk, Context.assign_eq hk', hc.has_eq R.injective]
    by_cases hh : c.has key = true
    · rw [if_pos hh, if_pos hh]
      rcases hc.set R.injective key v with ⟨hs, hs'⟩ | ⟨hs, hs'⟩ | ⟨d, d', hs, hs', hdd⟩
      · rw [hs, hs']
        exact .error (.error (R.undefined key))
      · rw [hs, hs']
        exact .error (.error (R.readonly key))
      · rw [hs, hs']
        exact .ok hdd
    · rw [if_neg hh, if_neg hh, hn.text]
      exact .error (.error (R.undefined n.text))

variable [AloofPort β]

instance : R.tie.Lawful where
  tell _ _ _ := trivial
  call := R.level_call
  foreign := R.reported
  own := R.own
  located := R.located
  read := R.agree_read
  declare := R.agree_declare
  assign := R.agree_assign
  index v hc := by
    have hi := R.agree_define hc.enter Run.indexName v R.nowhere (R.readonly Run.indexName)
    rwa [R.index] at hi
  enter := Context.Recast.enter
  exit := Context.Recast.exit
  countStatement hc := hc.withStats (fun s => { s with statements := s.statements + 1 })
    fun _ _ => rfl
  countCommand hc := hc.withStats (fun s => { s with commands := s.commands + 1 }) fun _ _ => rfl

instance : R.tie.Throughout where
  outputs _ _ := trivial
  showing now hc hs :=
    hc.showing R.injective R.nowhere (R.reading _ timestamp_mem_readingNames)
      (fun x hx => R.reading x.1 (hs x hx)) now
  markStart now hc := hc.withStats (fun s => { s with start := now, finish := none }) fun _ _ => rfl
  markComplete now hc := hc.withStats (fun s => { s with finish := some now }) fun _ _ => rfl
  recordError hc he := hc.recordError (.error he)
  settle hb he := by
    rw [hb.1]
    exact R.settled he hb.2

end Recasting

end AgentScript

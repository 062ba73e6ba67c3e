import AgentScript.Proofs.Machine.Tie

/-! The bot of the in-memory world in two runs. What it answers and what becomes of it does not depend
on the calls that it has on record. -/
namespace AgentScript

namespace Tie

open Run

variable {α : Type} {T : Tie Bot}

/-- A tie of bots that differ at most in the calls on record. -/
class Worldly (T : Tie Bot) : Prop extends Steady T where
  rest : ∀ {b b' : Bot}, T.bots b b' → b' = { b with calls := b'.calls }
  record : ∀ {b b' : Bot} (call : Call), T.bots b b' →
    T.bots { b with calls := b.calls.push call } { b' with calls := b'.calls.push call }
  effect : ∀ {b b' : Bot} {effect : Bot → Bot}, (∀ b : Bot, b.Effect (effect b)) →
    (∀ (b : Bot) calls, effect { b with calls := calls } = { effect b with calls := calls }) →
    T.bots b b' → T.bots (effect b) (effect b')
  refused : ∀ {b b' : Bot} {request : Request} {e : ScriptError}, T.bots b b' →
    b.ask request = .error (.error e) → T.foreign e

/-- A question whose answer does not depend on the calls on record, and which the bot leaves open only
for a refusal or for a fault. -/
structure Neutral (question : Bot → Except Trouble α) : Prop where
  calls : ∀ (b : Bot) calls, question { b with calls := calls } = question b
  refused : ∀ (b : Bot) e, question b = .error (.error e) →
    ∃ request, b.ask request = .error (.error e)

theorem neutral_ask (request : Request) : Neutral fun b : Bot => b.ask request where
  calls _ _ := rfl
  refused _ _ h := ⟨request, h⟩

theorem orFault_ne_error {r : Except Fault α} {e : ScriptError} :
    Bot.orFault r ≠ .error (.error e) := by
  intro h
  cases r <;> cases h

theorem neutral_pure (f : Bot → α) (hf : ∀ (b : Bot) calls, f { b with calls := calls } = f b) :
    Neutral fun b : Bot => (pure (f b) : Except Trouble α) where
  calls b calls := by rw [hf]
  refused _ _ h := nomatch h

theorem Neutral.bind {γ : Type} {q : Bot → Except Trouble α} {f : Bot → α → Except Trouble γ}
    (hq : Neutral q) (hf : ∀ a, Neutral fun b => f b a) : Neutral fun b => q b >>= f b where
  calls b calls := by
    rw [hq.calls]
    exact congrArg (q b >>= ·) (funext fun a => (hf a).calls b calls)
  refused b e h := by
    rcases bind_eq_error h with h | ⟨a, -, h⟩
    · exact hq.refused b e h
    · exact (hf a).refused b e h

theorem neutral_whereabouts : Neutral (·.whereabouts) :=
  (neutral_ask .position).bind fun _ => neutral_pure (·.position) fun _ _ => rfl

/-- The search for the nearest of some things that the bot knows of. -/
theorem neutral_askNearest (request : Request) (place : α → Point) (things : Bot → List α)
    (hc : ∀ (b : Bot) calls, things { b with calls := calls } = things b) :
    Neutral fun b : Bot => b.ask request >>= fun _ =>
      Bot.orFault (nearest? place b.position (things b)) where
  calls b calls := by
    rw [hc]
    rfl
  refused b e h := by
    rcases bind_eq_error h with h | ⟨_, -, h⟩
    · exact ⟨_, h⟩
    · exact (orFault_ne_error h).elim

theorem neutral_nearestEntity (target : String) : Neutral (·.nearestEntity target) :=
  neutral_askNearest .nearestEntity Entity.position
    (fun b => b.entities.filter (·.matches target)) fun _ _ => rfl

theorem neutral_nearestBlock (kind : Option String) : Neutral (·.nearestBlock kind) :=
  neutral_askNearest .nearestBlock Block.position
    (fun b => b.blocks.filter (Bot.wanted kind)) fun _ _ => rfl

theorem neutral_findItem (name : String) : Neutral (·.findItem name) :=
  (neutral_ask .findItem).bind fun _ => neutral_pure (fun b => b.items.find? (·.name = name))
    fun _ _ => rfl

theorem neutral_lookAt (p : Point) (unseen : Block) : Neutral (·.lookAt p unseen) where
  calls _ _ := rfl
  refused b e h := by
    rcases bind_eq_error h with h | ⟨_, -, h⟩
    · exact ⟨_, h⟩
    · split at h <;> cases h

theorem neutral_bestTool (block : Block) : Neutral (·.bestTool block) where
  calls _ _ := rfl
  refused b e h := by
    rcases bind_eq_error h with h | ⟨_, -, h⟩
    · exact ⟨_, h⟩
    · split at h
      · cases h
      · split at h
        · cases h
        · exact (neutral_findItem _).refused b e h

theorem neutral_readingBelow (f : Bot → Json) (bound : Int)
    (hf : ∀ (b : Bot) calls, f { b with calls := calls } = f b) :
    Neutral fun b => Bot.readingBelow (f b) bound where
  calls b calls := by rw [hf]
  refused b e h := by
    unfold Bot.readingBelow at h
    split at h <;> cases h

theorem neutral_readPanel (panel : Panel) : Neutral (·.readPanel panel) := by
  cases panel with
  | vitals => exact neutral_pure (·.vitalGauges) fun _ _ => rfl
  | environment =>
    exact (neutral_ask .environment).bind fun _ => neutral_pure (·.environmentGauges) fun _ _ => rfl
  | inventory =>
    exact (neutral_ask .inventory).bind fun _ => neutral_pure (·.inventoryGauges) fun _ _ => rfl
  | isFull =>
    exact (neutral_ask .isFull).bind fun _ =>
      neutral_pure (fun b _ => Json.bool (decide (b.totalSlots ≤ b.usedSlots))) fun _ _ => rfl
  | needsToEat =>
    exact (neutral_ask .needsToEat).bind fun _ =>
      (neutral_readingBelow (·.vitals.hunger) _ fun _ _ => rfl).bind fun low =>
        neutral_pure (fun _ _ => Json.bool low) fun _ _ => rfl
  | healthLow =>
    exact (neutral_ask .healthLow).bind fun _ =>
      (neutral_readingBelow (·.vitals.health) _ fun _ _ => rfl).bind fun low =>
        neutral_pure (fun _ _ => Json.bool low) fun _ _ => rfl
  | hungerLow =>
    exact (neutral_ask .hungerLow).bind fun _ =>
      (neutral_readingBelow (·.vitals.hunger) _ fun _ _ => rfl).bind fun low =>
        neutral_pure (fun _ _ => Json.bool low) fun _ _ => rfl

/-- Only what tied machines have in common is read. -/
theorem level_read {f : Machine → Run α} (hr : ∀ {m m' : Machine}, T.Machines m m' → f m' = f m)
    (hf : ∀ m, T.Level α (f m)) : T.Level α (get >>= f) := by
  intro m m' h
  change T.Ends T.Foreign (f m m) (f m' m')
  rw [hr h]
  exact hf m h

variable [T.Worldly]

theorem level_ask {question : Bot → Except Trouble α} (hq : Neutral question) :
    T.Level α (ask question) := by
  intro m m' h
  have heq : question m'.bot = question m.bot := by
    rw [Worldly.rest h.bots, hq.calls]
  change T.Ends T.Foreign (lift (question m.bot) m) (lift (question m'.bot) m')
  rw [heq]
  cases hr : question m.bot with
  | ok a => exact .ok a h
  | error t =>
    cases t with
    | fault f => exact .trouble (.fault f) h
    | error e =>
      obtain ⟨request, hr⟩ := hq.refused m.bot e hr
      exact .trouble (.error (Worldly.refused h.bots hr)) h

theorem level_request (call : Call) : T.Level Unit (request call) := by
  refine StepLaw.bind (fun m m' h => ?_) fun _ => level_ask (neutral_ask call.request)
  obtain ⟨hb, hc, ho⟩ := h
  have hrecorded : T.Machines { m with bot := { m.bot with calls := m.bot.calls.push call } } _ :=
    ⟨Worldly.record call hb, hc, ho⟩
  exact .ok () (hrecorded.countDown call.request)

theorem level_print (text : String) : T.Level Unit (modify (·.print text)) := by
  intro m m' h
  have hecho : m'.bot.echo = m.bot.echo := by
    rw [Worldly.rest h.bots]
  change T.Ends T.Foreign (.ok () (m.print text)) (.ok () (m'.print text))
  unfold Machine.print
  rw [hecho]
  split
  · refine .ok () ?_
    obtain ⟨hb, hc, ho⟩ := h
    exact ⟨hb, hc, Steady.push _ ho⟩
  · exact .ok () h

theorem level_effect {effect : Bot → Bot} (he : ∀ b : Bot, b.Effect (effect b))
    (hc : ∀ (b : Bot) calls, effect { b with calls := calls } = { effect b with calls := calls }) :
    T.Level Unit (modify fun m => { m with bot := effect m.bot }) := by
  intro m m' h
  obtain ⟨hb, hctx, ho⟩ := h
  exact .ok () ⟨Worldly.effect he hc hb, hctx, ho⟩

theorem level_perform (call : Call) {effect : Bot → Bot} (he : ∀ b : Bot, b.Effect (effect b))
    (hc : ∀ (b : Bot) calls, effect { b with calls := calls } = { effect b with calls := calls })
    (line : Option String) : T.Level Unit (perform call effect line) := by
  refine StepLaw.bind (level_request call) fun _ => StepLaw.bind (level_effect he hc) fun _ => ?_
  cases line with
  | some text => exact level_print text
  | none => exact StepLaw.pure ()

theorem level_arrive (target : Point) : T.Level Bool (arrive target) :=
  StepLaw.bind (level_effect (fun b => .arriveAt b target) fun _ _ => rfl) fun _ =>
    StepLaw.bind (level_print _) fun _ => StepLaw.pure true

theorem level_travel (target : Point) : T.Level Bool (travel target) := by
  refine StepLaw.bind (level_request _) fun _ => level_read (fun {m m'} h => ?_) fun m => ?_
  · have hb := Worldly.rest h.bots
    obtain ⟨-, hc, ho⟩ := h
    rw [show (m.swap _ _ _).bot = _ from hb]
    rfl
  · split
    · split
      · exact StepLaw.bind (StepLaw.wait (· + m.bot.gotoDelay)) fun _ => level_arrive target
      · exact level_arrive target
    · exact StepLaw.bind (StepLaw.wait (· + m.settings.gotoTimeout)) fun _ => StepLaw.pure false

theorem level_journey (target : Point) : T.Level Bool (journey target) := by
  refine StepLaw.bind (StepLaw.wait id) fun _ => ?_
  refine StepLaw.consult (fun m m' hs _ => by rw [hs]) fun m => ?_
  split
  · exact StepLaw.pure false
  · exact level_travel target

theorem level_placeOn (reference : Block) (face : Point) :
    T.Level Unit (placeOn reference face) := by
  refine level_read (fun {m m'} h => ?_) fun _ =>
    level_perform _ (fun b => .placeOn b reference face) (fun _ _ => rfl) _
  rw [Worldly.rest h.bots]
  rfl

theorem level_toss (type count : Int) : T.Level Unit (toss type count) := by
  refine level_read (fun {m m'} h => ?_) fun _ =>
    level_perform _ (fun b => .discard b type count) (fun _ _ => rfl) _
  rw [Worldly.rest h.bots]

theorem level_readPanel (panel : Panel) : T.Level (Gauge → Json) (readPanel panel) := by
  unfold readPanel
  split
  · exact StepLaw.bind (level_request .vitals) fun _ => level_ask (neutral_readPanel panel)
  · exact level_ask (neutral_readPanel panel)

/-- Tied bots answer alike and stay tied. -/
theorem level_operate (operation : Operation α) : T.Level α (operate operation) := by
  unfold operate
  split
  · exact level_perform _ (fun b => .hear b _) (fun _ _ => rfl) _
  · exact level_journey _
  · exact level_perform _ (fun b => .attack b) (fun _ _ => rfl) _
  · exact level_perform _ (fun b => .removeBlock b _) (fun _ _ => rfl) _
  · exact level_placeOn _ _
  · exact level_perform _ (fun b => .hold b _) (fun _ _ => rfl) _
  · exact level_toss _ _
  · exact level_ask neutral_whereabouts
  · exact level_ask (neutral_nearestEntity _)
  · exact level_ask (neutral_nearestBlock _)
  · exact level_ask (neutral_lookAt _ _)
  · exact level_ask (neutral_findItem _)
  · exact level_ask (neutral_bestTool _)
  · exact level_readPanel _

end Tie

end AgentScript

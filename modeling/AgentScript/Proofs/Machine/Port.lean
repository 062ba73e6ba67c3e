import AgentScript.Proofs.Machine.Law

/-! What the bot of the in-memory world does obeys the laws of commands. -/
namespace AgentScript.Run

section Parts

variable {β : Type} {P : (α : Type) → RunOn β α → Prop}

theorem modify_bind {α : Type} (m : Machine β) (g : Machine β → Machine β)
    (f : Unit → RunOn β α) : (modify g >>= f : RunOn β α) m = f () (g m) := rfl

section

variable [StepLaw P]

theorem law_map {α γ : Type} {part : RunOn β α} (f : α → γ) (hp : P _ part) :
    P _ (f <$> part) := StepLaw.bind hp fun a => StepLaw.pure (f a)

theorem law_lift_orFault {α : Type} (r : Except Fault α) : P _ (lift (Bot.orFault r)) := by
  cases r with
  | ok a => exact StepLaw.pure a
  | error f => exact StepLaw.fault f

end

variable [PartLaw P]

theorem law_lift {α : Type} (r : Except Trouble α) : P _ (lift r) := by
  cases r with
  | ok a => exact StepLaw.pure a
  | error t => exact PartLaw.fail t

theorem law_evaluate (e : Expr) : P _ (evaluate e) := by
  refine PartLaw.read (fun m m' _ hc _ _ => ?_) fun m => law_lift (e.eval m.context)
  rw [hc]

end Parts

section Bots

theorem law_ask {P : (α : Type) → Run α → Prop} [PartLaw P] {α : Type}
    (question : Bot → Except Trouble α) : P _ (ask question) := by
  refine PartLaw.read (fun m m' hb _ _ _ => ?_) fun m => law_lift (question m.bot)
  rw [hb]

variable {P : (α : Type) → Run α → Prop} [BotLaw P]

theorem law_request (call : Call) : P _ (request call) :=
  StepLaw.bind (BotLaw.record call) fun _ =>
    law_ask (·.ask call.request)

theorem law_perform (call : Call) {effect : Bot → Bot} (he : ∀ b : Bot, b.Effect (effect b))
    (line : Option String) : P _ (perform call effect line) := by
  refine StepLaw.bind (law_request call) fun _ => ?_
  refine StepLaw.bind (BotLaw.effect he) fun _ => ?_
  cases line with
  | some text => exact BotLaw.print text
  | none => exact StepLaw.pure ()

theorem law_arrive (target : Point) : P _ (arrive target) :=
  StepLaw.bind (BotLaw.effect fun b => .arriveAt b target) fun _ =>
    StepLaw.bind (BotLaw.print _) fun _ => StepLaw.pure true

theorem law_travel (target : Point) : P _ (travel target) := by
  refine StepLaw.bind (law_request _) fun _ => ?_
  refine PartLaw.read (fun m m' hb _ hs ht => ?_) fun m => ?_
  · rw [hb, hs, ht]
  · split
    · split
      · exact StepLaw.bind (StepLaw.wait (· + m.bot.gotoDelay)) fun _ => law_arrive target
      · exact law_arrive target
    · exact StepLaw.bind (StepLaw.wait (· + m.settings.gotoTimeout)) fun _ =>
        StepLaw.pure false

theorem law_journey (target : Point) : P _ (journey target) := by
  refine StepLaw.bind (StepLaw.wait id) fun _ => ?_
  refine StepLaw.consult (fun m m' hs _ => by rw [hs]) fun m => ?_
  split
  · exact StepLaw.pure false
  · exact law_travel target

theorem law_placeOn (reference : Block) (face : Point) : P _ (placeOn reference face) :=
  PartLaw.read (fun m m' hb _ _ _ => by rw [hb]) fun _ =>
    law_perform _ (fun b => .placeOn b reference face) _

theorem law_toss (type count : Int) : P _ (toss type count) :=
  PartLaw.read (fun m m' hb _ _ _ => by rw [hb]) fun _ =>
    law_perform _ (fun b => .discard b type count) _

theorem law_readPanel (panel : Panel) : P _ (readPanel panel) := by
  unfold readPanel
  split
  · exact StepLaw.bind (law_request .vitals) fun _ => law_ask _
  · exact law_ask _

theorem law_operate {α : Type} (operation : Operation α) : P _ (operate operation) := by
  unfold operate
  split
  · exact law_perform _ (fun b => .hear b _) _
  · exact law_journey _
  · exact law_perform _ (fun b => .attack b) _
  · exact law_perform _ (fun b => .removeBlock b _) _
  · exact law_placeOn _ _
  · exact law_perform _ (fun b => .hold b _) _
  · exact law_toss _ _
  · exact law_ask _
  · exact law_ask _
  · exact law_ask _
  · exact law_ask _
  · exact law_ask _
  · exact law_ask _
  · exact law_readPanel _

instance : CommandLaw P where
  call := law_operate

end Bots

end AgentScript.Run

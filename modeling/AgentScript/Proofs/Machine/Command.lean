import AgentScript.Proofs.Machine.Port

/-! The laws of commands hold of every command. -/
namespace AgentScript.Run

variable {β : Type} {P : (α : Type) → RunOn β α → Prop}

section Searches

variable [StepLaw P]

theorem law_act (verb success : String) {part : RunOn β Unit} (h : P _ part) :
    P _ (act verb part success) := by
  refine StepLaw.bind (StepLaw.attempt h) fun r => ?_
  cases r with
  | ok _ => exact StepLaw.pure _
  | error t => exact StepLaw.pure _

theorem law_sleep (seconds : Float) : P _ (sleep (β := β) seconds) := by
  unfold sleep
  split
  · exact StepLaw.bind (StepLaw.wait (· + seconds)) fun _ => StepLaw.pure _
  · exact StepLaw.pure _

theorem law_search_pure {α : Type} (a : α) : P _ (pure a : Search β α).run := StepLaw.pure _

theorem law_search_bind {α γ : Type} {search : Search β α} {f : α → Search β γ}
    (hs : P _ search.run) (hf : ∀ a, P _ (f a).run) : P _ (search >>= f).run := by
  refine StepLaw.bind hs fun r => ?_
  cases r with
  | ok a => exact hf a
  | error o => exact StepLaw.pure _

theorem law_search_lift {α : Type} {part : RunOn β α} (h : P _ part) :
    P _ (ExceptT.lift part : Search β α).run := law_map Except.ok h

theorem law_found {α : Type} (a : Option α) (o : Obstacle) :
    P _ (Search.found (β := β) a o).run := by
  cases a with
  | some a => exact law_search_pure a
  | none => exact StepLaw.pure _

theorem law_refuseIf (bad : Bool) (o : Obstacle) : P _ (Search.refuseIf (β := β) bad o).run := by
  cases bad with
  | true => exact StepLaw.pure _
  | false => exact law_search_pure ()

theorem law_atSite {α : Type} {search : Search β α} (hs : P _ search.run)
    {act : α → RunOn β CommandResult} (h : ∀ site, P _ (act site)) :
    P _ (atSite search act) := by
  refine StepLaw.bind hs fun r => ?_
  cases r with
  | ok site => exact h site
  | error o => exact StepLaw.pure _

end Searches

section Arguments

variable [PartLaw P]

theorem law_argumentText (e : Expr) : P _ (argumentText e) :=
  StepLaw.bind (law_evaluate e) fun v => StepLaw.pure v.text

theorem law_coordinate (command : String) (e : Expr) : P _ (coordinate command e) := by
  refine StepLaw.bind (law_evaluate e) fun v => ?_
  cases v with
  | number x => exact StepLaw.pure x
  | _ => exact PartLaw.fail _

theorem law_point (command : String) (x y z : Expr) : P _ (point command x y z) :=
  StepLaw.bind (law_coordinate command x) fun x =>
    StepLaw.bind (law_coordinate command y) fun y =>
      StepLaw.bind (law_coordinate command z) fun z => StepLaw.pure (⟨x, y, z⟩ : Point)

theorem law_dropCount (count : Option Expr) : P _ (dropCount count) := by
  cases count with
  | none => exact StepLaw.pure 1
  | some e =>
    refine StepLaw.bind (law_evaluate e) fun v => ?_
    cases v with
    | number x =>
      dsimp only
      split
      · exact StepLaw.pure _
      · exact PartLaw.fail _
    | _ => exact PartLaw.fail _

theorem law_wait (seconds : Expr) : P _ (wait seconds) := by
  refine StepLaw.bind (law_evaluate seconds) fun v => ?_
  cases v with
  | number x =>
    dsimp only
    split
    · exact law_sleep x
    · exact PartLaw.fail _
  | _ => exact PartLaw.fail _

end Arguments

section Sites

variable [Port β] [SearchLaw P]

theorem law_search_ask {α : Type} {operation : Operation α} (h : operation.Question) :
    P _ (Search.ask (β := β) operation).run := law_search_lift (SearchLaw.question h)

theorem law_distanceTo (p : Point) : P _ (Search.distanceTo (β := β) p).run :=
  law_search_bind (law_search_ask .position) fun _ => law_search_lift (law_lift_orFault _)

theorem law_targetNamed (target : String) : P _ (Search.targetNamed (β := β) target).run :=
  law_search_bind (law_search_ask (.nearestEntity _)) fun _ => law_found _ _

theorem law_carried (name : String) : P _ (Search.carried (β := β) name).run :=
  law_search_bind (law_search_ask (.findItem _)) fun _ => law_found _ _

theorem law_digSite (reach : Float) (kind : Option String) :
    P _ (Search.digSite (β := β) reach kind).run := by
  refine law_search_bind (law_search_ask (.nearestBlock _)) fun _ =>
    law_search_bind (law_found _ _) fun _ => ?_
  refine law_search_bind (law_search_ask (.lookAt _ _)) fun _ =>
    law_search_bind (law_found _ _) fun _ => ?_
  refine law_search_bind (law_refuseIf _ _) fun _ => ?_
  refine law_search_bind (law_distanceTo _) fun _ => ?_
  exact law_search_bind (law_refuseIf _ _) fun _ => law_search_pure _

theorem law_onNearestBlock : P _ (Search.onNearestBlock (β := β)).run :=
  law_search_bind (law_search_ask (.nearestBlock _)) fun _ =>
    law_search_bind (law_found _ _) fun _ => law_search_pure _

theorem law_placeSite (reach : Float) (name : String) (position : Point) :
    P _ (Search.placeSite (β := β) reach name position).run := by
  refine law_search_bind (law_carried name) fun _ => ?_
  refine law_search_bind (law_search_ask (.lookAt _ _)) fun occupant => ?_
  have support : ∀ item, P _ (do
      let support ← Search.found (← Search.blockAt (position.shift Point.down)) .noSupport
      Search.refuseIf (support.name = Block.air) .noSupport
      let distance ← Search.distanceTo position
      Search.refuseIf (reach < distance) (.targetTooFar distance)
      return ⟨item, support, position⟩ : Search β Spot).run := by
    intro item
    refine law_search_bind (law_search_ask (.lookAt _ _)) fun _ =>
      law_search_bind (law_found _ _) fun _ => ?_
    refine law_search_bind (law_refuseIf _ _) fun _ => ?_
    refine law_search_bind (law_distanceTo _) fun _ => ?_
    exact law_search_bind (law_refuseIf _ _) fun _ => law_search_pure _
  cases occupant with
  | none => exact support _
  | some block => exact law_search_bind (law_refuseIf _ _) fun _ => support _

theorem law_spot (reach : Float) (name : String) (given : Option Point) :
    P _ (Search.spot (β := β) reach name given).run := by
  cases given with
  | some p => exact law_search_bind (law_search_pure p) fun _ => law_placeSite _ _ _
  | none => exact law_search_bind law_onNearestBlock fun _ => law_placeSite _ _ _

end Sites

section Calls

variable [Port β] [SearchLaw P]

theorem law_hold_of (item : Item)
    (h : ∀ destination, P _ (Port.call (β := β) (.equip item destination))) :
    P _ (hold (β := β) item) :=
  StepLaw.consult (fun m m' hs _ => by rw [hs]) fun _ => h _

theorem law_sayText_of (text : String) (h : P _ (Port.call (β := β) (.say text))) :
    P _ (sayText (β := β) text) :=
  StepLaw.bind h fun _ => StepLaw.pure _

theorem law_travelTo_of (target : Point) (h : P _ (Port.call (β := β) (.goto target))) :
    P _ (travelTo (β := β) target) := by
  refine StepLaw.consult (fun m m' hs _ => by rw [hs]) fun m => ?_
  refine StepLaw.bind (StepLaw.attempt h) fun r => ?_
  split <;> exact StepLaw.pure _

theorem law_attackNamed_of (target : String)
    (h : ∀ entity, P _ (Port.call (β := β) (.attack entity))) :
    P _ (attackNamed (β := β) target) :=
  law_atSite (law_targetNamed _) fun entity => law_act _ _ (h entity)

theorem law_equipNamed_of (name : String)
    (h : ∀ item destination, P _ (Port.call (β := β) (.equip item destination))) :
    P _ (equipNamed (β := β) name) :=
  law_atSite (law_carried _) fun item => law_act _ _ (law_hold_of item (h item))

theorem law_dropNamed_of (name : String) (wanted : Int)
    (h : ∀ type count, P _ (Port.call (β := β) (.toss type count))) :
    P _ (dropNamed (β := β) name wanted) :=
  law_atSite (law_carried _) fun _ => law_act _ _ (h _ _)

end Calls

section Acts

variable [Port β] [PortLaw P]

theorem law_hold (item : Item) : P _ (hold item) := law_hold_of item fun _ => PortLaw.call _

theorem law_digBlock (block : Block) : P _ (digBlock block) := by
  refine StepLaw.bind (PortLaw.call _) fun tool => ?_
  cases tool with
  | none => exact StepLaw.bind (StepLaw.pure ()) fun _ => PortLaw.call _
  | some tool => exact StepLaw.bind (law_hold tool) fun _ => PortLaw.call _

theorem law_fill (spot : Spot) : P _ (fill spot) :=
  StepLaw.bind (law_hold spot.item) fun _ => PortLaw.call _

theorem law_sayText (text : String) : P _ (sayText (β := β) text) :=
  law_sayText_of text (PortLaw.call _)

theorem law_travelTo (target : Point) : P _ (travelTo (β := β) target) :=
  law_travelTo_of target (PortLaw.call _)

theorem law_attackNamed (target : String) : P _ (attackNamed (β := β) target) :=
  law_attackNamed_of target fun _ => PortLaw.call _

theorem law_digNearest (kind : Option String) : P _ (digNearest (β := β) kind) :=
  StepLaw.consult (fun m m' hs _ => by rw [hs]) fun _ =>
    law_atSite (law_digSite _ _) fun block => law_act _ _ (law_digBlock block)

theorem law_placeNamed (name : String) (given : Option Point) :
    P _ (placeNamed (β := β) name given) :=
  StepLaw.consult (fun m m' hs _ => by rw [hs]) fun _ =>
    law_atSite (law_spot _ _ _) fun spot => law_act _ _ (law_fill spot)

theorem law_equipNamed (name : String) : P _ (equipNamed (β := β) name) :=
  law_equipNamed_of name fun _ _ => PortLaw.call _

theorem law_dropNamed (name : String) (wanted : Int) : P _ (dropNamed (β := β) name wanted) :=
  law_dropNamed_of name wanted fun _ _ => PortLaw.call _

end Acts

section Commands

variable [Port β] [CommandLaw P]

theorem law_say (message : Expr) : P _ (say message) :=
  StepLaw.bind (law_argumentText message) law_sayText

theorem law_goto (x y z : Expr) : P _ (goto x y z) :=
  StepLaw.bind (law_point "GOTO" x y z) law_travelTo

theorem law_attack (target : Expr) : P _ (attack target) :=
  StepLaw.bind (law_argumentText target) law_attackNamed

theorem law_dig (kind : Option Expr) : P _ (dig kind) := by
  refine StepLaw.bind ?_ law_digNearest
  cases kind with
  | none => exact StepLaw.pure none
  | some e => exact law_map some (law_argumentText e)

theorem law_place (item : Expr) (x y z : Option Expr) : P _ (place item x y z) := by
  refine StepLaw.bind (law_argumentText item) fun name => ?_
  split
  · exact StepLaw.bind (law_point _ _ _ _) fun p => law_placeNamed name (some p)
  · exact law_placeNamed name none

theorem law_equip (item : Expr) : P _ (equip item) :=
  StepLaw.bind (law_argumentText item) law_equipNamed

theorem law_drop (item : Expr) (count : Option Expr) : P _ (drop item count) :=
  StepLaw.bind (law_argumentText item) fun name =>
    StepLaw.bind (law_dropCount count) (law_dropNamed name)

theorem law_carryOut (c : Command) : P _ (carryOut c) := by
  cases c with
  | say loc message => exact law_say message
  | goto loc x y z => exact law_goto x y z
  | attack loc target => exact law_attack target
  | dig loc kind => exact law_dig kind
  | place loc item x y z => exact law_place item x y z
  | equip loc item => exact law_equip item
  | drop loc item count => exact law_drop item count
  | wait loc seconds => exact law_wait seconds
  | misfit tree => exact PartLaw.fail _

theorem law_command (c : Command) : P _ (command c) := by
  refine StepLaw.consult (fun m m' _ ht => by rw [ht]) fun m => ?_
  refine StepLaw.bind (StepLaw.attempt (law_carryOut c)) fun r => ?_
  have measured : ∀ result : CommandResult, P _ (do
      return { result with duration := ((← get).clock - m.clock) * 1000 }) :=
    fun result => StepLaw.consult (fun m m' _ ht => by rw [ht]) fun _ => StepLaw.pure _
  cases r with
  | ok result => exact measured result
  | error t =>
    cases t with
    | error e => exact StepLaw.bind (PartLaw.fail _) measured
    | fault f => exact measured _

end Commands

end AgentScript.Run

import AgentScript.Proofs.Machine.Answers
import AgentScript.Proofs.Machine.Arguments
import AgentScript.Proofs.Machine.Lawful
import AgentScript.Proofs.Machine.Reach

/-! What commands do to the in-memory world. A command that succeeds has done its one work, and one
that does not has at most changed what the bot holds. -/
namespace AgentScript

namespace Bot

def recording (b : Bot) (calls : List Call) : Bot :=
  { b with calls := b.calls ++ calls.toArray }

theorem recording_nil (b : Bot) : b.recording [] = b := by simp [recording]

theorem recording_recording (b : Bot) (calls more : List Call) :
    (b.recording calls).recording more = b.recording (calls ++ more) := by
  simp [recording, Array.append_assoc]

/-- A bot after calls that came to nothing, apart from what it holds. -/
inductive Spared (b : Bot) : Bot → Prop
  | kept (calls : List Call) : Spared b (b.recording calls)
  | held {calls : List Call} {item : Item} {destination : String}
    (hc : .equip item destination ∈ calls) (hr : b.refusal? .equip = none) :
    Spared b ((b.hold item).recording calls)

theorem Spared.of_recording {b b' : Bot} {calls : List Call} (h : b' = b.recording calls) :
    b.Spared b' := by
  rw [h]
  exact .kept calls

theorem Spared.of_eq {b b' : Bot} (h : b' = b) : b.Spared b' :=
  of_recording (h.trans b.recording_nil.symm)

end Bot

/-- What a command that succeeds makes of a bot. -/
inductive Command.Done (context : Context) (b : Bot) : Command → Bot → Prop
  | say {loc : Location} {message : Expr} {v : Value} (hv : message.eval context = .ok v) :
    Done context b (.say loc message) ((b.hear v.text).recording [.say v.text])
  | goto {loc : Location} {x y z : Expr} {p : Point} (hx : x.eval context = .ok (.number p.x))
    (hy : y.eval context = .ok (.number p.y)) (hz : z.eval context = .ok (.number p.z)) :
    Done context b (.goto loc x y z) ((b.arriveAt p).recording [.goto p.x p.y p.z])
  | attack {loc : Location} {target : Expr} {entity : Entity} (he : entity ∈ b.entities) :
    Done context b (.attack loc target) (b.recording [.attack entity])
  | dig {loc : Location} {kind : Option Expr} {block : Block} {before after : List Block}
    (hb : b.blocks = before ++ block :: after) :
    Done context b (.dig loc kind) ({ b with blocks := before ++ after }.recording [.dig block])
  | digWith {loc : Location} {kind : Option Expr} {block : Block} {before after : List Block}
    (hb : b.blocks = before ++ block :: after) (tool : Item) (destination : String) :
    Done context b (.dig loc kind)
      (({ b with blocks := before ++ after }.hold tool).recording
        [.equip tool destination, .dig block])
  | place {loc : Location} {item : Expr} {x y z : Option Expr} {v : Value} {carried : Item}
    {support : Block} {blocks : List Block} (hv : item.eval context = .ok v)
    (hi : carried.name = v.text) (hs : support ∈ b.blocks) (ha : support.name ≠ Block.air)
    (hb : Block.Put ⟨v.text, support.position.shift Point.up⟩ b.blocks blocks)
    (destination : String) :
    Done context b (.place loc item x y z)
      (({ b with blocks := blocks }.hold carried).recording
        [.equip carried destination, .place support Point.up])
  | equip {loc : Location} {item : Expr} {v : Value} {carried : Item}
    (hv : item.eval context = .ok v) (hi : carried.name = v.text) (destination : String) :
    Done context b (.equip loc item) ((b.hold carried).recording [.equip carried destination])
  | drop {loc : Location} {item : Expr} {count : Option Expr} {v : Value} {carried : Item}
    (hv : item.eval context = .ok v) (hi : carried.name = v.text) (n : Int) :
    Done context b (.drop loc item count)
      ((b.discard carried.type n).recording [.toss carried.type n])
  | wait {loc : Location} {seconds : Expr} : Done context b (.wait loc seconds) b

/-- The operations that act on the world, with the call that is recorded and the effect. -/
inductive Operation.Acts : Operation Unit → Call → (Bot → Bot) → Prop
  | say (text : String) : Acts (.say text) (.say text) (·.hear text)
  | attack (entity : Entity) : Acts (.attack entity) (.attack entity) id
  | dig (block : Block) : Acts (.dig block) (.dig block) (·.removeBlock block)
  | place (reference : Block) (face : Point) :
    Acts (.place reference face) (.place reference face) (·.placeOn reference face)
  | equip (item : Item) (destination : String) :
    Acts (.equip item destination) (.equip item destination) (·.hold item)
  | toss (type count : Int) : Acts (.toss type count) (.toss type count) (·.discard type count)

theorem Machine.record_bot (m : Machine) (call : Call) :
    (m.record call).bot = m.bot.recording [call] := by
  obtain ⟨flag, at?, he, -⟩ := m.record_eq call
  rw [he]
  simp [Bot.recording]

theorem Machine.print_bot (m : Machine) (text : String) : (m.print text).bot = m.bot := by
  unfold print
  split <;> rfl

theorem Machine.print_clock (m : Machine) (text : String) : (m.print text).clock = m.clock := by
  unfold print
  split <;> rfl

theorem Machine.waitUntil_clock (m : Machine) (time : Float) :
    (m.waitUntil time).clock = if m.clock < time then time else m.clock := by
  obtain ⟨flag, probes, later, he, -⟩ := m.waitUntil_eq time
  rw [he]

/-- The time once some seconds have passed. Time does not go back. -/
def Machine.later (m : Machine) (seconds : Float) : Float :=
  if m.clock < m.clock + seconds then m.clock + seconds else m.clock

namespace Run

variable {α γ : Type}

/-- What a part of a run makes of a bot: where it succeeds something holds of the bot, and else its
world is spared. -/
inductive Touches (success : α → Bool) (Q : Bot → Prop) (b : Bot) :
    EStateM.Result Halt Machine α → Prop
  | done {a : α} {m : Machine} (hs : success a = true) (h : Q m.bot) : Touches success Q b (.ok a m)
  | failed {a : α} {m : Machine} (hs : success a = false) (h : b.Spared m.bot) :
    Touches success Q b (.ok a m)
  | broken {halt : Halt} {m : Machine} (h : b.Spared m.bot) : Touches success Q b (.error halt m)

section Requests

theorem get_bind (f : Machine → Run α) (m : Machine) : (get >>= f) m = f m m := rfl

/-- A request is recorded, whether or not the bot refuses it. -/
theorem request_cases (call : Call) (m : Machine) :
    (m.bot.refusal? call.request = none ∧ request call m = .ok () (m.record call)) ∨
    ∃ r, m.bot.refusal? call.request = some r ∧
      request call m = .error (.trouble (r.trouble call.request)) (m.record call) := by
  have hask : request call m = lift ((m.record call).bot.ask call.request) (m.record call) := rfl
  have hr : (m.record call).bot.refusal? call.request = m.bot.refusal? call.request := by
    rw [Machine.record_bot]
    rfl
  rw [hask, Bot.ask, hr]
  cases m.bot.refusal? call.request with
  | none => exact .inl ⟨rfl, rfl⟩
  | some r => exact .inr ⟨r, rfl, rfl⟩

theorem perform_cases (call : Call) (effect : Bot → Bot) (line : Option String) (m : Machine) :
    (m.bot.refusal? call.request = none ∧ ∃ m', perform call effect line m = .ok () m' ∧
      m'.bot = effect (m.bot.recording [call])) ∨
    ∃ t m', perform call effect line m = .error (.trouble t) m' ∧
      m'.bot = m.bot.recording [call] := by
  unfold perform
  rcases request_cases call m with ⟨hr, h⟩ | ⟨r, -, h⟩
  · left
    rw [bind_of_ok h, modify_bind, m.record_bot]
    cases line with
    | some text => exact ⟨hr, _, rfl, Machine.print_bot _ text⟩
    | none => exact ⟨hr, _, rfl, rfl⟩
  · exact .inr ⟨_, _, bind_of_error h _, m.record_bot call⟩

theorem call_cases {operation : Operation Unit} {call : Call} {effect : Bot → Bot}
    (h : operation.Acts call effect) (m : Machine) :
    (m.bot.refusal? call.request = none ∧ ∃ m', Port.call operation m = .ok () m' ∧
      m'.bot = effect (m.bot.recording [call])) ∨
    ∃ t m', Port.call operation m = .error (.trouble t) m' ∧ m'.bot = m.bot.recording [call] := by
  have hp : ∃ line, (Port.call operation : Run Unit) m = perform call effect line m := by
    cases h with
    | say text => exact ⟨some text, rfl⟩
    | attack entity => exact ⟨some ("[attack] " ++ entity.name), rfl⟩
    | dig block => exact ⟨some ("[dig] " ++ block.name), rfl⟩
    | place reference face => exact ⟨some ("[place] " ++ m.bot.inHand), rfl⟩
    | equip item destination => exact ⟨some ("[equip] " ++ item.name), rfl⟩
    | toss type count => exact ⟨_, rfl⟩
  obtain ⟨line, hp⟩ := hp
  rw [hp]
  exact perform_cases call effect line m

/-- What a journey comes to: there is no time for it, the bot arrives in time, time is up and it has
not moved, or it refuses to go. -/
inductive Journey (target : Point) (m : Machine) : EStateM.Result Halt Machine Bool → Prop
  | unbegun {m' : Machine} (hz : m.settings.gotoTimeout ≤ 0) (hb : m'.bot = m.bot)
    (hc : m'.clock = m.clock) : Journey target m (.ok false m')
  | arrived {m' : Machine} (hr : m.bot.refusal? .goto = none)
    (ht : inTime m.clock m.bot.gotoDelay m.settings.gotoTimeout = true)
    (hb : m'.bot = (m.bot.arriveAt target).recording [.goto target.x target.y target.z])
    (hc : m'.clock = if 0 < m.bot.gotoDelay then m.later m.bot.gotoDelay else m.clock) :
    Journey target m (.ok true m')
  | late {m' : Machine} (hr : m.bot.refusal? .goto = none)
    (ht : inTime m.clock m.bot.gotoDelay m.settings.gotoTimeout = false)
    (hb : m'.bot = m.bot.recording [.goto target.x target.y target.z])
    (hc : m'.clock = m.later m.settings.gotoTimeout) : Journey target m (.ok false m')
  | refused {r : Refusal} {m' : Machine} (hr : m.bot.refusal? .goto = some r)
    (hb : m'.bot = m.bot.recording [.goto target.x target.y target.z])
    (hc : m'.clock = m.clock) : Journey target m (.error (.trouble (r.trouble .goto)) m')

theorem arrive_ok (target : Point) (m : Machine) : ∃ m', arrive target m = .ok true m' ∧
    m'.bot = m.bot.arriveAt target ∧ m'.clock = m.clock :=
  ⟨_, rfl, Machine.print_bot _ _, Machine.print_clock _ _⟩

theorem travel_cases (target : Point) {m m₀ : Machine} (hb₀ : m₀.bot = m.bot)
    (hs₀ : m₀.settings = m.settings) (hc₀ : m₀.clock = m.clock) :
    Journey target m (travel target m₀) := by
  obtain ⟨m₁, hm₁, hb, hs, hc⟩ : ∃ m₁, m₁ = m₀.record (.goto target.x target.y target.z) ∧
      m₁.bot = m.bot.recording [.goto target.x target.y target.z] ∧ m₁.settings = m.settings ∧
      m₁.clock = m.clock := by
    refine ⟨_, rfl, ?_, ?_, ?_⟩
    · rw [Machine.record_bot, hb₀]
    all_goals
      obtain ⟨_, _, he, -⟩ := m₀.record_eq (.goto target.x target.y target.z)
      rw [he]
      assumption
  rw [travel]
  rcases request_cases (.goto target.x target.y target.z) m₀ with ⟨hr, h⟩ | ⟨r, hr, h⟩
  · rw [hb₀] at hr
    have hdelay : m₁.bot.gotoDelay = m.bot.gotoDelay := by
      rw [hb]
      rfl
    rw [bind_of_ok h, ← hm₁, get_bind, hc, hs, hdelay]
    cases hin : inTime m.clock m.bot.gotoDelay m.settings.gotoTimeout with
    | true =>
      by_cases hd : 0 < m.bot.gotoDelay
      · simp only [hd, if_true, modify_bind]
        obtain ⟨m', ha, hb', hc'⟩ := arrive_ok target (m₁.waitUntil (m₁.clock + m.bot.gotoDelay))
        rw [ha]
        refine .arrived hr hin ?_ ?_
        · rw [hb', Machine.waitUntil_bot, hb]
          rfl
        · rw [hc', if_pos hd, Machine.waitUntil_clock, hc, Machine.later]
      · simp only [hd, if_true, if_false]
        obtain ⟨m', ha, hb', hc'⟩ := arrive_ok target m₁
        rw [ha]
        refine .arrived hr hin ?_ ?_
        · rw [hb', hb]
          rfl
        · rw [hc', if_neg hd, hc]
    | false =>
      simp only [Bool.false_eq_true, if_false, modify_bind]
      refine .late hr hin ?_ ?_
      · rw [Machine.waitUntil_bot, hb]
      · rw [Machine.waitUntil_clock, hc, Machine.later]
  · rw [hb₀] at hr
    rw [bind_of_error h, ← hm₁]
    exact .refused hr hb hc

theorem journey_cases (target : Point) (m : Machine) :
    Journey target m ((Port.call (.goto target) : Run Bool) m) := by
  obtain ⟨m₁, hm₁, hb, hs, hc⟩ : ∃ m₁, m₁ = m.waitUntil m.clock ∧ m₁.bot = m.bot ∧
      m₁.settings = m.settings ∧ m₁.clock = m.clock := by
    refine ⟨_, rfl, m.waitUntil_bot _, ?_, ?_⟩
    all_goals
      obtain ⟨_, _, _, he, -⟩ := m.waitUntil_eq m.clock
      rw [he]
    exact ite_self m.clock
  change Journey target m (journey target m)
  rw [journey, modify_bind, get_bind, ← hm₁]
  split
  · next hz => exact .unbegun (hs ▸ hz) hb hc
  · exact travel_cases target hb hs hc

end Requests

section Parts

variable {success : α → Bool} {Q : Bot → Prop} {b : Bot} {m : Machine}

/-- What leaves the bot as it is may come first. -/
theorem touches_bind {part : Run γ} {f : γ → Run α} (hb : m.bot = b) (hk : Keeps SameBot part)
    (hf : ∀ a m₁, part m = .ok a m₁ → m₁.bot = b → Touches success Q b (f a m₁)) :
    Touches success Q b ((part >>= f) m) := by
  cases hp : part m with
  | ok a m₁ =>
    rw [bind_of_ok hp]
    exact hf a m₁ hp ((hk.ok hp).trans hb)
  | error halt m₁ =>
    have hsame := hk m
    rw [after_of_error hp] at hsame
    rw [bind_of_error hp]
    exact .broken (.of_eq (hsame.trans hb))

theorem touches_reads {V : γ → Prop} {part : Run γ} {f : γ → Run α} (hb : m.bot = b)
    (hp : Reads V part m) (h : ∀ a, V a → Touches success Q b (f a m)) :
    Touches success Q b ((part >>= f) m) := by
  rcases hp with ⟨hp, hv⟩ | ⟨hp⟩
  · rw [bind_of_ok hp]
    exact h _ hv
  · rw [bind_of_error hp]
    exact .broken (.of_eq hb)

theorem touches_call {operation : Operation Unit} {call : Call} {effect : Bot → Bot}
    (ho : operation.Acts call effect) (hb : m.bot = b) (hQ : Q (effect (b.recording [call]))) :
    Touches (fun _ => true) Q b (Port.call operation m) := by
  rcases call_cases ho m with ⟨-, m', h, hm⟩ | ⟨t, m', h, hm⟩
  · rw [h]
    refine .done rfl ?_
    rw [hm, hb]
    exact hQ
  · rw [hb] at hm
    rw [h]
    exact .broken (.of_recording hm)

theorem touches_act {part : Run Unit} (verb text : String)
    (h : Touches (fun _ => true) Q b (part m)) :
    Touches (·.success) Q b (act verb part text m) := by
  unfold act
  generalize hr : part m = r at h
  cases h with
  | @done a m' _ hq =>
    rw [bind_of_ok (attempt_of_ok hr)]
    exact .done rfl hq
  | failed hs => cases hs
  | @broken halt m' hs =>
    cases halt with
    | trouble t =>
      rw [bind_of_ok (attempt_of_trouble hr)]
      exact .failed rfl hs
    | stopped =>
      rw [bind_of_error (attempt_of_stopped hr)]
      exact .broken hs

theorem touches_atSite {search : Search Bot γ} {act : γ → Run CommandResult} (hb : m.bot = b)
    (hk : Keeps SameBot search.run)
    (h : ∀ site m₁, search.run m = .ok (.ok site) m₁ → m₁.bot = b →
      Touches (·.success) Q b (act site m₁)) :
    Touches (·.success) Q b (atSite search act m) := by
  refine touches_bind hb hk fun r m₁ hr hm => ?_
  cases r with
  | ok site => exact h site m₁ hr hm
  | error o => exact .failed rfl (.of_eq hm)

end Parts

section Commands

variable {b : Bot} {m : Machine} {Q : Bot → Prop}

theorem touches_sayText (text : String) (hb : m.bot = b)
    (hQ : Q ((b.hear text).recording [.say text])) :
    Touches (·.success) Q b (sayText text m) := by
  have h : Touches (fun _ => true) Q b ((Port.call (.say text) : Run Unit) m) :=
    touches_call (.say text) hb hQ
  unfold sayText
  generalize hr : (Port.call (.say text) : Run Unit) m = r at h
  cases h with
  | done _ hq =>
    rw [bind_of_ok hr]
    exact .done rfl hq
  | failed hs => cases hs
  | broken hs =>
    rw [bind_of_error hr]
    exact .broken hs

/-- A journey that breaks off is a failure of the command. -/
theorem travelTo_of_trouble {target : Point} {t : Trouble} {m m' : Machine}
    (h : (Port.call (.goto target) : Run Bool) m = .error (.trouble t) m') :
    ∃ message, travelTo target m = .ok (.failed message) m' := by
  unfold travelTo
  rw [get_bind, bind_of_ok (attempt_of_trouble h)]
  -- A fault that is a timeout has a message of its own.
  cases t with
  | error e => exact ⟨_, rfl⟩
  | fault f =>
    obtain ⟨kind, text⟩ := f
    cases kind <;> exact ⟨_, rfl⟩

theorem touches_travelTo (target : Point) (hb : m.bot = b)
    (hQ : Q ((b.arriveAt target).recording [.goto target.x target.y target.z])) :
    Touches (·.success) Q b (travelTo target m) := by
  have hj := journey_cases target m
  generalize hg : (Port.call (.goto target) : Run Bool) m = r at hj
  cases hj with
  | unbegun _ hm =>
    rw [travelTo, get_bind, bind_of_ok (attempt_of_ok hg)]
    exact .failed rfl (.of_eq (hm.trans hb))
  | arrived _ _ hm =>
    rw [travelTo, get_bind, bind_of_ok (attempt_of_ok hg)]
    refine .done rfl ?_
    rw [hm, hb]
    exact hQ
  | late _ _ hm =>
    rw [travelTo, get_bind, bind_of_ok (attempt_of_ok hg)]
    rw [hb] at hm
    exact .failed rfl (.of_recording hm)
  | refused _ hm =>
    obtain ⟨message, ht⟩ := travelTo_of_trouble hg
    rw [ht]
    rw [hb] at hm
    exact .failed rfl (.of_recording hm)

theorem touches_attackNamed (target : String) (hb : m.bot = b)
    (hQ : ∀ entity ∈ b.entities, Q (b.recording [.attack entity])) :
    Touches (·.success) Q b (attackNamed target m) := by
  refine touches_atSite hb (law_targetNamed (P := fun _ => Keeps SameBot) target)
    fun entity m₁ hs hm => touches_act _ _ (touches_call (.attack entity) hm ?_)
  have he := targetNamed_ok hs
  rw [hb] at he
  exact hQ entity he

/-- What is taken into the hand for an act stays there if the act fails. -/
theorem touches_hold {item : Item} {operation : Operation Unit} {call : Call}
    {effect : Bot → Bot} (ho : operation.Acts call effect) (hb : m.bot = b)
    (hQ : ∀ destination, Q (effect ((b.hold item).recording [.equip item destination, call]))) :
    Touches (fun _ => true) Q b ((hold item >>= fun _ => Port.call operation) m) := by
  rcases call_cases (.equip item m.settings.equipDestination) m with
    ⟨hr, m₁, h, hm⟩ | ⟨t, m₁, h, hm⟩
  · have hh : hold item m = .ok () m₁ := h
    have hm : m₁.bot = (b.hold item).recording [.equip item m.settings.equipDestination] := by
      rw [hm, hb]
      rfl
    rw [hb] at hr
    rw [bind_of_ok hh]
    rcases call_cases ho m₁ with ⟨-, m', h, hm'⟩ | ⟨t, m', h, hm'⟩
    · rw [h]
      refine .done rfl ?_
      rw [hm', hm, Bot.recording_recording]
      exact hQ _
    · rw [h]
      refine .broken ?_
      rw [hm', hm, Bot.recording_recording]
      exact .held List.mem_cons_self hr
  · have hh : hold item m = .error (.trouble t) m₁ := h
    rw [hb] at hm
    rw [bind_of_error hh]
    exact .broken (.of_recording hm)

theorem touches_digBlock {block : Block} (hb : m.bot = b)
    (hQ : Q ((b.removeBlock block).recording [.dig block]))
    (hheld : ∀ tool destination, Q (((b.removeBlock block).hold tool).recording
      [.equip tool destination, .dig block])) :
    Touches (fun _ => true) Q b (digBlock block m) := by
  refine touches_bind hb (SearchLaw.question (P := fun _ => Keeps SameBot) (.bestTool block))
    fun tool m₁ _ hm => ?_
  cases tool with
  | none => exact touches_call (.dig block) hm hQ
  | some tool => exact touches_hold (.dig block) hm (hheld tool)

theorem touches_digNearest (kind : Option String) (hb : m.bot = b)
    (hQ : ∀ block before after, b.blocks = before ++ block :: after →
      Q ({ b with blocks := before ++ after }.recording [.dig block]))
    (hheld : ∀ block before after tool destination, b.blocks = before ++ block :: after →
      Q (({ b with blocks := before ++ after }.hold tool).recording
        [.equip tool destination, .dig block])) :
    Touches (·.success) Q b (digNearest kind m) := by
  refine touches_atSite hb (law_digSite (P := fun _ => Keeps SameBot) m.settings.reach kind)
    fun block m₁ hs hm => touches_act _ _ ?_
  obtain ⟨before, after, hblocks, hdrop⟩ := (digSite_ok hs).1.exists_dropBlock
  rw [hb] at hblocks hdrop
  have hremove : b.removeBlock block = { b with blocks := before ++ after } := by
    rw [Bot.removeBlock, hdrop]
  refine touches_digBlock hm ?_ fun tool destination => ?_
  · rw [hremove]
    exact hQ block before after hblocks
  · rw [hremove]
    exact hheld block before after tool destination hblocks

theorem touches_placeNamed (name : String) (given : Option Point) (hb : m.bot = b)
    (hQ : ∀ (carried : Item) support blocks destination, carried.name = name → support ∈ b.blocks →
      support.name ≠ Block.air →
      Block.Put ⟨name, support.position.shift Point.up⟩ b.blocks blocks →
        Q (({ b with blocks := blocks }.hold carried).recording
          [.equip carried destination, .place support Point.up])) :
    Touches (·.success) Q b (placeNamed name given m) := by
  refine touches_atSite hb (law_spot (P := fun _ => Keeps SameBot) m.settings.reach name given)
    fun spot m₁ hs hm => touches_act _ _ ?_
  obtain ⟨hs, -, -⟩ := spot_ok hs
  have hn := Bot.name_of_findItem hs.carried
  have hsupport := hs.support_mem
  rw [hb] at hsupport
  refine touches_hold (.place spot.support Point.up) hm fun destination => ?_
  have hput := Bot.put_putBlock ⟨name, spot.support.position.shift Point.up⟩ b.blocks
  have h := hQ spot.item spot.support _ destination hn hsupport hs.solid hput
  rw [← hn] at h
  exact h

theorem touches_equipNamed (name : String) (hb : m.bot = b)
    (hQ : ∀ (carried : Item) destination, carried.name = name →
      Q ((b.hold carried).recording [.equip carried destination])) :
    Touches (·.success) Q b (equipNamed name m) := by
  refine touches_atSite hb (law_carried (P := fun _ => Keeps SameBot) name)
    fun item m₁ hs hm => touches_act _ _ ?_
  have hn := Bot.name_of_findItem (carried_ok hs).1
  exact touches_call (.equip item m₁.settings.equipDestination) hm (hQ item _ hn)

theorem touches_dropNamed (name : String) (wanted : Int) (hb : m.bot = b)
    (hQ : ∀ (carried : Item) n, carried.name = name →
      Q ((b.discard carried.type n).recording [.toss carried.type n])) :
    Touches (·.success) Q b (dropNamed name wanted m) := by
  refine touches_atSite hb (law_carried (P := fun _ => Keeps SameBot) name)
    fun item m₁ hs hm => touches_act _ _ ?_
  exact touches_call (.toss item.type _) hm (hQ item _ (Bot.name_of_findItem (carried_ok hs).1))

theorem touches_sleep (seconds : Float) (hb : m.bot = b) (hQ : Q b) :
    Touches (·.success) Q b (sleep seconds m) := by
  unfold sleep
  by_cases h : 0 < seconds
  · rw [if_pos h, modify_bind]
    refine .done rfl ?_
    rw [Machine.waitUntil_bot, hb]
    exact hQ
  · rw [if_neg h]
    refine .done rfl ?_
    rw [hb]
    exact hQ

end Commands

theorem touches_fail {success : α → Bool} {b : Bot} {m : Machine} {Q : Bot → Prop} (t : Trouble)
    (hb : m.bot = b) : Touches success Q b (fail t m) :=
  .broken (.of_eq hb)

theorem touches_carryOut (c : Command) (m : Machine) :
    Touches (·.success) (c.Done m.context m.bot) m.bot (carryOut c m) := by
  cases c with
  | say loc message =>
    refine touches_reads rfl (reads_argumentText m message) ?_
    rintro _ ⟨v, hv, rfl⟩
    exact touches_sayText v.text rfl (.say hv)
  | goto loc x y z =>
    exact touches_reads rfl (reads_point m "GOTO" x y z) fun p hp =>
      touches_travelTo p rfl (.goto hp.x hp.y hp.z)
  | attack loc target =>
    exact touches_reads rfl (reads_argumentText m target) fun text _ =>
      touches_attackNamed text rfl fun _ he => .attack he
  | dig loc kind =>
    exact touches_reads rfl (reads_kind m kind) fun wanted _ =>
      touches_digNearest wanted rfl (fun _ _ _ hb => .dig hb)
        fun _ _ _ tool destination hb => .digWith hb tool destination
  | place loc item x y z =>
    have placed : ∀ v given, item.eval m.context = .ok v →
        Touches (·.success) (Command.Done m.context m.bot (.place loc item x y z)) m.bot
          (placeNamed v.text given m) := fun v given hv =>
      touches_placeNamed v.text given rfl fun _ _ _ destination hi hs ha hb =>
        .place hv hi hs ha hb destination
    refine touches_reads rfl (reads_argumentText m item) ?_
    rintro _ ⟨v, hv, rfl⟩
    split
    · exact touches_reads rfl (reads_point m "PLACE" _ _ _) fun p _ => placed v (some p) hv
    · exact placed v none hv
  | equip loc item =>
    refine touches_reads rfl (reads_argumentText m item) ?_
    rintro _ ⟨v, hv, rfl⟩
    exact touches_equipNamed v.text rfl fun _ destination hi => .equip hv hi destination
  | drop loc item count =>
    refine touches_reads rfl (reads_argumentText m item) ?_
    rintro _ ⟨v, hv, rfl⟩
    exact touches_reads rfl (reads_dropCount m count) fun wanted _ =>
      touches_dropNamed v.text wanted rfl fun _ n hi => .drop hv hi n
  | wait loc seconds =>
    refine touches_reads rfl (reads_evaluate m seconds) fun v _ => ?_
    cases v with
    | number x =>
      dsimp only
      split
      · exact touches_sleep x rfl .wait
      · exact touches_fail _ rfl
    | _ => exact touches_fail _ rfl
  | misfit tree => exact touches_fail _ rfl

theorem touches_command (c : Command) (m : Machine) :
    Touches (·.success) (c.Done m.context m.bot) m.bot (command c m) := by
  have h := touches_carryOut c m
  change Touches _ _ _ ((attempt (carryOut c) >>= _) m)
  generalize hr : carryOut c m = r at h
  cases h with
  | @done result m' hs hq =>
    rw [bind_of_ok (attempt_of_ok hr)]
    exact .done hs hq
  | @failed result m' hs hq =>
    rw [bind_of_ok (attempt_of_ok hr)]
    exact .failed hs hq
  | @broken halt m' hq =>
    cases halt with
    | stopped =>
      rw [bind_of_error (attempt_of_stopped hr)]
      exact .broken hq
    | trouble t =>
      rw [bind_of_ok (attempt_of_trouble hr)]
      cases t with
      | error e => exact .broken hq
      | fault f => exact .failed rfl hq

/-- A statement makes of the bot what its command makes of it, and fails if the command does. -/
theorem touches_statement (loc : Location) (c : Command) (m : Machine) :
    Touches (fun _ => true) (c.Done m.context m.bot) m.bot (statement (.command loc c) m) := by
  have h := touches_command c (m.note loc "CommandStatement")
  change Touches _ _ _ (counted loc "CommandStatement" (commandStatement loc c) m)
  generalize hr : command c (m.note loc "CommandStatement") = r at h
  cases h with
  | @done result m₁ hs hq =>
    obtain ⟨m₂, hc, hb⟩ := conclude_done hs loc m₁
    rw [← hb] at hq
    rw [counted_ok (show commandStatement loc c _ = _ from (bind_of_ok hr _).trans hc)]
    exact .done rfl hq
  | @failed result m₁ hs hq =>
    obtain ⟨m₂, hc, hb⟩ := conclude_failed hs loc m₁
    rw [← hb] at hq
    rw [counted_error (show commandStatement loc c _ = _ from (bind_of_ok hr _).trans hc)]
    exact .broken hq
  | @broken halt m₁ hq =>
    obtain ⟨error, rfl, -⟩ := carryOut_of_command hr
    rw [counted_error (show commandStatement loc c _ = _ from bind_of_error hr _)]
    exact .broken hq

end Run

end AgentScript

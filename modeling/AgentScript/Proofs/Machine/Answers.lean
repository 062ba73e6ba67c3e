import AgentScript.Proofs.Bot.World
import AgentScript.Proofs.Machine.Keeps
import AgentScript.Proofs.Machine.Steps

/-! What the searches of commands find in the in-memory world. They leave the machine as it is. -/
namespace AgentScript

def SameBot {β : Type} (m m' : Machine β) : Prop := m'.bot = m.bot

theorem Machine.waitUntil_bot {β : Type} (m : Machine β) (time : Float) :
    (m.waitUntil time).bot = m.bot := by
  obtain ⟨flag, probes, later, he, -⟩ := m.waitUntil_eq time
  rw [he]

namespace Bot

def Within (b : Bot) (reach : Float) (p : Point) : Prop :=
  ∃ distance, b.position.distance p = .ok distance ∧ ¬ reach < distance

/-- A block that the bot may dig: the one that it sees where the nearest of a kind is, of a kind
that can be dug, and not too far away. -/
structure DigSite (b : Bot) (reach : Float) (kind : Option String) (block : Block) : Prop where
  seen : ∃ nearest, b.nearestBlock kind = .ok (some nearest) ∧
    b.lookAt nearest.position nearest = .ok (some block)
  diggable : block.name ∉ Block.undiggable
  near : b.Within reach block.position

def IsFree (b : Bot) (p : Point) : Prop :=
  b.lookAt p ⟨Block.air, p⟩ = .ok none ∨
    ∃ block, b.lookAt p ⟨Block.air, p⟩ = .ok (some block) ∧ block.name = Block.air

/-- A spot where the bot may place an item of a name: the item is at hand, its position is free, on
top of a block, and not too far away. -/
structure PlaceSite (b : Bot) (reach : Float) (name : String) (spot : Spot) : Prop where
  carried : b.findItem name = .ok (some spot.item)
  free : b.IsFree spot.position
  support : b.lookAt (spot.position.shift Point.down) ⟨Block.air, spot.position.shift Point.down⟩ =
    .ok (some spot.support)
  solid : spot.support.name ≠ Block.air
  near : b.Within reach spot.position

/-- The position that is given, or the one on top of the nearest block. -/
def Target (b : Bot) (given : Option Point) (position : Point) : Prop :=
  match given with
  | some p => position = p
  | none => ∃ below, b.nearestBlock none = .ok (some below) ∧
    position = below.position.shift Point.up

variable {b : Bot} {reach : Float}

/-- The block to dig is an entry of the world's blocks, and the very one that digging takes out. -/
theorem DigSite.exists_dropBlock {kind : Option String} {block : Block}
    (h : b.DigSite reach kind block) :
    ∃ before after, b.blocks = before ++ block :: after ∧
      dropBlock block b.blocks = before ++ after := by
  obtain ⟨nearest, hn, hl⟩ := h.seen
  exact Bot.exists_dropBlock (mem_of_nearestBlock hn) (eq_of_lookAt hl)

theorem PlaceSite.support_mem {name : String} {spot : Spot} (h : b.PlaceSite reach name spot) :
    spot.support ∈ b.blocks := mem_of_lookAt h.support h.solid

end Bot

namespace Run

variable {α γ : Type}

instance {β : Type} : AllowsParts (SameBot : Machine β → Machine β → Prop) where
  refl _ := rfl
  trans h h' := Eq.trans h' h
  output _ _ := rfl
  wait m time := m.waitUntil_bot time

/-- Questions are answered from what the bot is. -/
theorem exists_ask {operation : Operation α} (h : operation.Question) :
    ∃ question, (Port.call operation : Run α) = ask question := by
  cases h with
  | position => exact ⟨(·.whereabouts), rfl⟩
  | nearestEntity target => exact ⟨(·.nearestEntity target), rfl⟩
  | nearestBlock kind => exact ⟨(·.nearestBlock kind), rfl⟩
  | lookAt p unseen => exact ⟨(·.lookAt p unseen), rfl⟩
  | findItem name => exact ⟨(·.findItem name), rfl⟩
  | bestTool block => exact ⟨(·.bestTool block), rfl⟩

instance {R : Machine → Machine → Prop} [AllowsParts R] : SearchLaw (fun _ => Keeps R) where
  question h := by
    obtain ⟨question, hq⟩ := exists_ask h
    rw [hq]
    exact law_ask (P := fun _ => Keeps R) question

theorem ask_ok {question : Bot → Except Trouble α} {m m' : Machine} {a : α}
    (h : ask question m = .ok a m') : question m.bot = .ok a ∧ m' = m := by
  change lift (question m.bot) m = _ at h
  cases hq : question m.bot with
  | ok b =>
    rw [hq] at h
    cases h
    exact ⟨rfl, rfl⟩
  | error t =>
    rw [hq] at h
    cases h

section Steps

variable {β : Type} {m m' : Machine β}

theorem search_bind_ok {search : Search β α} {f : α → Search β γ} {c : γ}
    (h : (search >>= f).run m = .ok (.ok c) m') :
    ∃ a m₁, search.run m = .ok (.ok a) m₁ ∧ (f a).run m₁ = .ok (.ok c) m' := by
  change (search.run >>= ExceptT.bindCont f) m = _ at h
  obtain ⟨r, m₁, hs, h⟩ := exists_of_bind_ok h
  cases r with
  | error o => cases h
  | ok a => exact ⟨a, m₁, hs, h⟩

theorem found_ok {o : Option α} {obstacle : Obstacle} {a : α}
    (h : (Search.found o obstacle : Search β α).run m = .ok (.ok a) m') : o = some a ∧ m' = m := by
  cases o with
  | none => cases h
  | some b =>
    cases h
    exact ⟨rfl, rfl⟩

theorem refuseIf_ok {bad : Bool} {obstacle : Obstacle} {u : Unit}
    (h : (Search.refuseIf bad obstacle : Search β Unit).run m = .ok (.ok u) m') :
    bad = false ∧ m' = m := by
  cases bad with
  | true => cases h
  | false =>
    cases h
    exact ⟨rfl, rfl⟩

theorem atSite_ok {search : Search β γ} {act : γ → RunOn β CommandResult} {result : CommandResult}
    (h : atSite search act m = .ok result m') (hs : result.success = true) :
    ∃ site m₁, search.run m = .ok (.ok site) m₁ ∧ act site m₁ = .ok result m' := by
  obtain ⟨r, m₁, hr, h⟩ := exists_of_bind_ok h
  cases r with
  | ok site => exact ⟨site, m₁, hr, h⟩
  | error o =>
    cases h
    cases hs

theorem act_ok {verb success : String} {part : RunOn β Unit} {result : CommandResult}
    (h : act verb part success m = .ok result m') (hs : result.success = true) :
    part m = .ok () m' ∧ result.message = success := by
  cases hp : part m with
  | ok a m₁ =>
    cases (bind_of_ok (attempt_of_ok hp) _).symm.trans h
    exact ⟨rfl, rfl⟩
  | error halt m₁ =>
    cases halt with
    | trouble t =>
      cases (bind_of_ok (attempt_of_trouble hp) _).symm.trans h
      cases hs
    | stopped => cases (bind_of_error (attempt_of_stopped hp) _).symm.trans h

/-- A command that succeeds was carried out, and takes its message from there. -/
theorem command_ok [Port β] {c : Command} {result : CommandResult}
    (h : command c m = .ok result m') (hs : result.success = true) :
    ∃ r, carryOut c m = .ok r m' ∧ r.success = true ∧ r.message = result.message := by
  change (attempt (carryOut c) >>= _) m = _ at h
  cases hc : carryOut c m with
  | ok r m₁ =>
    cases (bind_of_ok (attempt_of_ok hc) _).symm.trans h
    exact ⟨r, rfl, hs, rfl⟩
  | error halt m₁ =>
    cases halt with
    | trouble t =>
      cases t with
      | error e => cases (bind_of_ok (attempt_of_trouble hc) _).symm.trans h
      | fault f =>
        cases (bind_of_ok (attempt_of_trouble hc) _).symm.trans h
        cases hs
    | stopped => cases (bind_of_error (attempt_of_stopped hc) _).symm.trans h

end Steps

variable {m m' : Machine}

theorem search_ask_ok {operation : Operation α} (question : Bot → Except Trouble α) {a : α}
    (ho : (Port.call operation : Run α) = ask question)
    (h : (Search.ask operation : Search Bot α).run m = .ok (.ok a) m') :
    question m.bot = .ok a ∧ m' = m := by
  change (Except.ok <$> (Port.call operation : Run α)) m = _ at h
  rw [ho] at h
  change (ask question >>= fun a => (pure (Except.ok a) : Run (Except Obstacle α))) m = _ at h
  obtain ⟨b, m₁, hq, h⟩ := exists_of_bind_ok h
  cases h
  exact ask_ok hq

theorem targetNamed_ok {target : String} {entity : Entity}
    (h : (Search.targetNamed target).run m = .ok (.ok entity) m') : entity ∈ m.bot.entities := by
  unfold Search.targetNamed at h
  obtain ⟨found, _, ha, hf⟩ := search_bind_ok h
  obtain ⟨hq, rfl⟩ := search_ask_ok (·.nearestEntity target) rfl ha
  obtain ⟨rfl, -⟩ := found_ok hf
  exact Bot.mem_of_nearestEntity hq

theorem carried_ok {name : String} {item : Item}
    (h : (Search.carried name).run m = .ok (.ok item) m') :
    m.bot.findItem name = .ok (some item) ∧ m' = m := by
  unfold Search.carried at h
  obtain ⟨found, _, ha, hf⟩ := search_bind_ok h
  obtain ⟨hq, rfl⟩ := search_ask_ok (·.findItem name) rfl ha
  obtain ⟨rfl, rfl⟩ := found_ok hf
  exact ⟨hq, rfl⟩

theorem blockAt_ok {p : Point} {found : Option Block}
    (h : (Search.blockAt p).run m = .ok (.ok found) m') :
    m.bot.lookAt p ⟨Block.air, p⟩ = .ok found ∧ m' = m :=
  search_ask_ok (fun b => b.lookAt p ⟨Block.air, p⟩) rfl h

theorem distanceTo_ok {p : Point} {distance : Float}
    (h : (Search.distanceTo p).run m = .ok (.ok distance) m') :
    m.bot.position.distance p = .ok distance ∧ m' = m := by
  unfold Search.distanceTo at h
  obtain ⟨here, m₁, ha, hd⟩ := search_bind_ok h
  obtain ⟨hq, rfl⟩ := search_ask_ok (·.whereabouts) rfl ha
  obtain ⟨-, -, hq⟩ := bind_eq_ok hq
  cases hq
  change (Except.ok <$> (lift (Bot.orFault _) : Run Float)) m₁ = _ at hd
  cases hp : m₁.bot.position.distance p with
  | ok _ =>
    rw [hp] at hd
    cases hd
    exact ⟨rfl, rfl⟩
  | error f =>
    rw [hp] at hd
    cases hd

theorem digSite_ok {reach : Float} {kind : Option String} {block : Block}
    (h : (Search.digSite reach kind).run m = .ok (.ok block) m') :
    m.bot.DigSite reach kind block ∧ m' = m := by
  unfold Search.digSite at h
  obtain ⟨nearest?, _, hn, h₁⟩ := search_bind_ok h
  obtain ⟨hn, rfl⟩ := search_ask_ok (·.nearestBlock kind) rfl hn
  obtain ⟨nearest, _, hf, h₂⟩ := search_bind_ok h₁
  obtain ⟨rfl, rfl⟩ := found_ok hf
  obtain ⟨block?, _, hl, h₃⟩ := search_bind_ok h₂
  obtain ⟨hl, rfl⟩ := search_ask_ok (·.lookAt nearest.position nearest) rfl hl
  obtain ⟨found, _, hf, h₄⟩ := search_bind_ok h₃
  obtain ⟨rfl, rfl⟩ := found_ok hf
  obtain ⟨_, _, hr, h₅⟩ := search_bind_ok h₄
  obtain ⟨hdig, rfl⟩ := refuseIf_ok hr
  obtain ⟨distance, _, hd, h₆⟩ := search_bind_ok h₅
  obtain ⟨hd, rfl⟩ := distanceTo_ok hd
  obtain ⟨_, _, hr, h₇⟩ := search_bind_ok h₆
  obtain ⟨hnear, rfl⟩ := refuseIf_ok hr
  cases h₇
  exact ⟨⟨⟨nearest, hn, hl⟩, by simpa using hdig, ⟨distance, hd, by simpa using hnear⟩⟩, rfl⟩

theorem placeSite_ok {reach : Float} {name : String} {position : Point} {spot : Spot}
    (h : (Search.placeSite reach name position).run m = .ok (.ok spot) m') :
    m.bot.PlaceSite reach name spot ∧ spot.position = position ∧ m' = m := by
  unfold Search.placeSite at h
  obtain ⟨item, m₁, hc, h₁⟩ := search_bind_ok h
  obtain ⟨hi, rfl⟩ := carried_ok hc
  obtain ⟨occupant, m₂, ha, h₂⟩ := search_bind_ok h₁
  obtain ⟨ha, rfl⟩ := blockAt_ok ha
  have below (hfree : m₂.bot.IsFree position) (h : (do
      let support ← Search.found (← Search.blockAt (position.shift Point.down)) .noSupport
      Search.refuseIf (support.name = Block.air) .noSupport
      let distance ← Search.distanceTo position
      Search.refuseIf (reach < distance) (.targetTooFar distance)
      return ⟨item, support, position⟩ : Search Bot Spot).run m₂ = .ok (.ok spot) m') :
      m₂.bot.PlaceSite reach name spot ∧ spot.position = position ∧ m' = m₂ := by
    obtain ⟨support?, _, hs, hb₁⟩ := search_bind_ok h
    obtain ⟨hs, rfl⟩ := blockAt_ok hs
    obtain ⟨support, _, hf, hb₂⟩ := search_bind_ok hb₁
    obtain ⟨rfl, rfl⟩ := found_ok hf
    obtain ⟨_, _, hr, hb₃⟩ := search_bind_ok hb₂
    obtain ⟨hair, rfl⟩ := refuseIf_ok hr
    obtain ⟨distance, _, hd, hb₄⟩ := search_bind_ok hb₃
    obtain ⟨hd, rfl⟩ := distanceTo_ok hd
    obtain ⟨_, _, hr, hb₅⟩ := search_bind_ok hb₄
    obtain ⟨hnear, rfl⟩ := refuseIf_ok hr
    cases hb₅
    exact ⟨⟨hi, hfree, hs, by simpa using hair, ⟨distance, hd, by simpa using hnear⟩⟩, rfl, rfl⟩
  cases occupant with
  | none => exact below (.inl ha) h₂
  | some block =>
    obtain ⟨_, _, hr, h₃⟩ := search_bind_ok h₂
    obtain ⟨hair, rfl⟩ := refuseIf_ok hr
    exact below (.inr ⟨block, ha, by simpa using hair⟩) h₃

/-- Where an item is to be placed: at the position that is given, or on top of the nearest block. -/
theorem spot_ok {reach : Float} {name : String} {given : Option Point} {spot : Spot}
    (h : (Search.spot reach name given).run m = .ok (.ok spot) m') :
    m.bot.PlaceSite reach name spot ∧ m.bot.Target given spot.position ∧ m' = m := by
  unfold Search.spot at h
  cases given with
  | some p =>
    obtain ⟨hs, hp, hm⟩ := placeSite_ok h
    exact ⟨hs, hp, hm⟩
  | none =>
    obtain ⟨position, _, hp, h₁⟩ := search_bind_ok h
    unfold Search.onNearestBlock at hp
    obtain ⟨below?, _, hn, h₂⟩ := search_bind_ok hp
    obtain ⟨hn, rfl⟩ := search_ask_ok (·.nearestBlock none) rfl hn
    obtain ⟨below, _, hf, h₃⟩ := search_bind_ok h₂
    obtain ⟨rfl, rfl⟩ := found_ok hf
    cases h₃
    obtain ⟨hs, hp, hm⟩ := placeSite_ok h₁
    exact ⟨hs, ⟨below, hn, hp⟩, hm⟩

end Run

end AgentScript

import AgentScript.Proofs.Bot.Silent
import AgentScript.Proofs.Machine.Answers

/-! Plain data, and the bots whose instruments show nothing else. Of the in-memory world these are the
tame ones. -/
namespace AgentScript

/-- A datum that an instrument may show: a number, an integer among the numbers, a text, a truth
value, or nothing. -/
inductive Json.Plain : Json → Prop
  | null : Plain .null
  | bool (b : Bool) : Plain (.bool b)
  | int {n : Int} {x : Float} (h : Number.ofInt? n = some x) : Plain (.int n)
  | real (x : Float) : Plain (.real x)
  | str (s : String) : Plain (.str s)

namespace Run

variable {α β γ : Type}

def Returns (Q : α → Prop) (part : RunOn β α) : Prop := ∀ m a m', part m = .ok a m' → Q a

theorem Returns.bind {Q : α → Prop} {R : γ → Prop} {part : RunOn β α} {f : α → RunOn β γ}
    (hp : Returns Q part) (hf : ∀ a, Q a → Returns R (f a)) : Returns R (part >>= f) := by
  intro m c m' h
  obtain ⟨a, m₁, hm, h⟩ := exists_of_bind_ok h
  exact hf a (hp m a m₁ hm) m₁ c m' h

theorem returns_pure {Q : α → Prop} {a : α} (h : Q a) : Returns Q (pure a : RunOn β α) := by
  intro m a' m' hm
  cases hm
  exact h

end Run

/-- A bot whose instruments show nothing but plain data. -/
class PlainPort (β : Type) [Port β] : Prop where
  plain : ∀ panel, Run.Returns (fun shown => ∀ g, (shown g).Plain)
    (Port.call (.read panel) : RunOn β (Gauge → Json))

instance : PlainPort Idle where
  plain panel m shown m' hm g := by
    rcases Run.idle_cases (.read panel) m with ⟨_, h⟩ | ⟨_, _, h⟩
    · rw [h] at hm
      cases hm
      exact .null
    · rw [h] at hm
      cases hm

namespace Bot

/-- A bot of the in-memory world that refuses requests with faults only, and whose instruments show
plain data, however many of its items are left. -/
structure Tame (b : Bot) : Prop where
  silent : b.Silent
  vitals : ∀ g, (b.vitalGauges g).Plain
  environment : ∀ g, (b.environmentGauges g).Plain
  inventory : ∀ items : List Item, items.length ≤ b.items.length →
    ∀ g, (inventoryGauges { b with items := items } g).Plain

variable {b b' : Bot}

theorem length_takeItems_le (type count : Int) (items : List Item) :
    (takeItems type count items).length ≤ items.length := by
  induction items with
  | nil => exact Nat.le_refl _
  | cons item rest ih =>
    unfold takeItems
    split
    · split
      · exact Nat.le_succ _
      · exact Nat.le_refl _
    · exact Nat.succ_le_succ ih

/-- The equipped item is a text, whichever it is. -/
theorem Tame.holding (h : b.Tame) (items : List Item) (hl : items.length ≤ b.items.length)
    (equipped : Option String) (g : Gauge) :
    (inventoryGauges { b with items := items, equipped := equipped } g).Plain := by
  have hg := h.inventory items hl g
  cases g with
  | equippedItem => cases equipped <;> constructor
  | _ => exact hg

theorem Tame.standing (h : b.Tame) (position : Point) (g : Gauge) :
    (environmentGauges { b with position := position } g).Plain := by
  have hg := h.environment g
  cases g with
  | x | y | z => exact .real _
  | _ => exact hg

instance : Lasting Tame where
  silent h := h.silent
  calls calls h := ⟨h.silent.of_refusals rfl, h.vitals, h.environment, h.inventory⟩
  effect he h := by
    have hsilent := h.silent.of_refusals he.refusals
    cases he with
    | hear | attack | removeBlock | placeOn =>
      exact ⟨hsilent, h.vitals, h.environment, h.inventory⟩
    | arriveAt p => exact ⟨hsilent, h.vitals, h.standing p, h.inventory⟩
    | hold item =>
      exact ⟨hsilent, h.vitals, h.environment, fun items hl => h.holding items hl _⟩
    | discard type count =>
      exact ⟨hsilent, h.vitals, h.environment, fun items hl =>
        h.inventory items (Nat.le_trans hl (length_takeItems_le type count _))⟩

/-- Whatever panel of a tame bot is read, it shows plain data. -/
theorem Tame.plain (h : b.Tame) {panel : Panel} {shown : Gauge → Json}
    (hr : b.readPanel panel = .ok shown) (g : Gauge) : (shown g).Plain := by
  cases panel with
  | vitals =>
    cases hr
    exact h.vitals g
  | environment =>
    obtain ⟨_, -, hr⟩ := bind_eq_ok hr
    cases hr
    exact h.environment g
  | inventory =>
    obtain ⟨_, -, hr⟩ := bind_eq_ok hr
    cases hr
    exact h.inventory b.items (Nat.le_refl _) g
  | isFull =>
    obtain ⟨_, -, hr⟩ := bind_eq_ok hr
    cases hr
    exact .bool _
  | needsToEat | healthLow | hungerLow =>
    obtain ⟨_, -, hr⟩ := bind_eq_ok hr
    obtain ⟨low, -, hr⟩ := bind_eq_ok hr
    cases hr
    exact .bool low

/-- A bot that carries nothing and sees no one, in good health. -/
theorem tame_idle (echo : Bool) (calls : Array Call) (refusals : List (Request × Refusal))
    (h : Silent { refusals := refusals }) :
    Tame { echo := echo, calls := calls, refusals := refusals } where
  silent := h.of_refusals rfl
  vitals g := by
    cases g <;> first | exact .int rfl | exact .real _ | exact .bool _ | exact .null
  environment g := by
    have nearby : (Json.int 0).Plain := .int rfl
    cases g <;>
      first | exact nearby | exact .int rfl | exact .real _ | exact .bool _ | exact .null
  inventory items hl g := by
    cases List.length_eq_zero_iff.mp (Nat.le_zero.mp hl)
    have used : (Json.int 0).Plain := .int rfl
    have slots : (Json.int 36).Plain := .int rfl
    cases g <;> first | exact used | exact slots | exact .null

end Bot

namespace Run

theorem tame_of_request {m m' : Machine} {call : Call} (h : m.bot.Tame)
    (hr : request call m = .ok () m') : m'.bot.Tame := by
  obtain ⟨flag, at?, he, -⟩ := m.record_eq call
  change ask (·.ask call.request) (m.record call) = _ at hr
  rw [(ask_ok hr).2, he]
  exact Bot.Lasting.calls _ h

theorem plain_of_readPanel {m m' : Machine} {panel : Panel} {shown : Gauge → Json}
    (h : m.bot.Tame) (hr : readPanel panel m = .ok shown m') (g : Gauge) : (shown g).Plain := by
  unfold readPanel at hr
  split at hr
  · obtain ⟨_, m₁, hq, hr⟩ := exists_of_bind_ok hr
    exact (tame_of_request h hq).plain (ask_ok hr).1 g
  · exact h.plain (ask_ok hr).1 g

end Run

theorem spares_tame : Spares Bot.Tame := spares_lasting

abbrev TameBot := { b : Bot // b.Tame }

instance : Port TameBot := spares_tame.port

instance : HostPort TameBot := spares_tame.hostPort

instance : PlainPort TameBot where
  plain panel m shown m' hm g := by
    obtain ⟨m₁, hc⟩ := spares_tame.call_of_ok hm
    exact Run.plain_of_readPanel m.bot.property hc g

end AgentScript

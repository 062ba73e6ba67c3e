import AgentScript.Proofs.Bot.Tie
import AgentScript.Proofs.Machine.Demand

/-! Bots that stay of a kind and report no errors of the script. Such a kind is a kind of bots of its
own, and what those refuse, they refuse with faults of the host. -/
namespace AgentScript

variable {α β γ : Type}

/-- Bots of a kind that stay of it and report no errors of the script. -/
structure Spares [Port β] (Q : β → Prop) : Prop where
  keeps : ∀ {α : Type} (operation : Operation α) {m : Machine β}, Q m.bot →
    Q ((Port.call operation).after m).bot
  silent : ∀ {α : Type} (operation : Operation α) {m m' : Machine β} {e : ScriptError}, Q m.bot →
    Port.call operation m ≠ .error (.trouble (.error e)) m'

namespace Bot

/-- A bot of the in-memory world that refuses requests with faults only. -/
def Silent (b : Bot) : Prop := ∀ request e, b.ask request ≠ .error (.error e)

theorem silent_default : Silent {} := fun _ _ he => nomatch he

theorem silent_of_faults {b : Bot} (h : ∀ entry ∈ b.refusals, ∃ f, entry.2 = .fault f) :
    b.Silent := by
  intro request e he
  unfold Bot.ask Bot.refusal? at he
  cases hl : b.refusals.lookup request with
  | none =>
    rw [hl] at he
    cases he
  | some r =>
    obtain ⟨before, after, hr, -⟩ := List.lookup_eq_some_iff.mp hl
    obtain ⟨f, hf⟩ := h (request, r) (by simp [hr])
    cases hf
    rw [hl] at he
    cases he

theorem Effect.refusals {b b' : Bot} (h : b.Effect b') : b'.refusals = b.refusals := by
  cases h <;> rfl

theorem Silent.of_refusals {b b' : Bot} (h : b.Silent) (he : b'.refusals = b.refusals) :
    b'.Silent := by
  intro request e
  unfold Bot.ask Bot.refusal?
  rw [he]
  exact h request e

/-- A kind of silent bots that no call and no effect of one takes a bot out of. -/
class Lasting (Q : Bot → Prop) : Prop where
  silent : ∀ {b : Bot}, Q b → b.Silent
  calls : ∀ {b : Bot} calls, Q b → Q { b with calls := calls }
  effect : ∀ {b b' : Bot}, b.Effect b' → Q b → Q b'

instance : Lasting Silent where
  silent := id
  calls _ h := h.of_refusals rfl
  effect he h := h.of_refusals he.refusals

end Bot

def Tie.keeping (Q : Bot → Prop) : Tie Bot where
  places _ _ := True
  labels _ _ := True
  errors _ _ := True
  foreign _ := False
  contexts _ _ := True
  bots b b' := b' = b ∧ Q b
  outputs _ _ := True

section Kinds

variable {Q : Bot → Prop} [Bot.Lasting Q]

instance : (Tie.keeping Q).Worldly where
  push _ _ := trivial
  locate _ := id
  rest h := by
    rw [h.1]
  record _ h := by
    rw [h.1]
    exact ⟨rfl, Bot.Lasting.calls _ h.2⟩
  effect he _ h := by
    rw [h.1]
    exact ⟨rfl, Bot.Lasting.effect (he _) h.2⟩
  refused h he := Bot.Lasting.silent h.2 _ _ he

theorem ends_keeping (operation : Operation α) {m : Machine} (hm : Q m.bot) :
    (Tie.keeping Q).Ends (Tie.keeping Q).Foreign (Run.operate operation m)
      (Run.operate operation m) := by
  have htied : (Tie.keeping Q).Machines m m := ⟨⟨rfl, hm⟩, trivial, trivial⟩
  exact Tie.level_operate operation htied

theorem spares_lasting : Spares Q where
  keeps operation m hm := by
    have hends := ends_keeping operation hm
    change Q ((Run.operate operation).after m).bot
    unfold RunOn.after
    generalize Run.operate operation m = r at hends ⊢
    have kept : ∀ {n : Machine}, (Tie.keeping Q).Machines n n → Q n.bot := fun h => h.bots.2
    cases r with
    | ok a n =>
      cases hends with
      | ok _ hn => exact kept hn
    | error halt n =>
      cases hends with
      | trouble _ hn => exact kept hn
      | stopped hn => exact kept hn
  silent operation m m' e hm he := by
    have hends := ends_keeping operation hm
    change Run.operate operation m = _ at he
    rw [he] at hends
    cases hends with
    | trouble ht _ =>
      cases ht with
      | error h => exact h

end Kinds

theorem spares_silent : Spares Bot.Silent := spares_lasting

def Machine.withBot (m : Machine β) (bot : γ) : Machine γ := { m with bot := bot }

namespace Spares

variable [Port β] {Q : β → Prop}

/-- What a bot of a kind does when it is asked for something. It stays of its kind. -/
def call (h : Spares Q) (operation : Operation α) : RunOn { b : β // Q b } α := fun m =>
  let bare := m.withBot m.bot.val
  let bot : { b : β // Q b } :=
    ⟨((Port.call operation).after bare).bot, h.keeps operation m.bot.property⟩
  match Port.call operation bare with
  | .ok a m' => .ok a (m'.withBot bot)
  | .error halt m' => .error halt (m'.withBot bot)

/-- The bots of a kind as a kind of bots. They report no errors of the script that could be given
places. -/
@[reducible] def port (h : Spares Q) : Port { b : β // Q b } where
  call := h.call
  settle _ bot := bot

/-- A call on a bot of the kind ends as the call on the bare bot does. -/
theorem call_cases (h : Spares Q) (operation : Operation α) (m : Machine { b : β // Q b }) :
    (∃ a m₁ bot, Port.call operation (m.withBot m.bot.val) = .ok a m₁ ∧
      h.call operation m = .ok a (m₁.withBot bot)) ∨
    ∃ halt m₁ bot, Port.call operation (m.withBot m.bot.val) = .error halt m₁ ∧
      h.call operation m = .error halt (m₁.withBot bot) := by
  unfold call
  dsimp only
  cases hc : Port.call operation (m.withBot m.bot.val) with
  | ok a m₁ => exact .inl ⟨a, m₁, _, rfl, rfl⟩
  | error halt m₁ => exact .inr ⟨halt, m₁, _, rfl, rfl⟩

theorem call_of_ok (h : Spares Q) {operation : Operation α} {m m' : Machine { b : β // Q b }}
    {a : α} (hm : h.call operation m = .ok a m') :
    ∃ m₁, Port.call operation (m.withBot m.bot.val) = .ok a m₁ := by
  rcases h.call_cases operation m with ⟨a', m₁, bot, hc, hcall⟩ | ⟨halt, m₁, bot, -, hcall⟩
  · cases hcall.symm.trans hm
    exact ⟨m₁, hc⟩
  · cases hcall.symm.trans hm

theorem call_of_error (h : Spares Q) {operation : Operation α} {m m' : Machine { b : β // Q b }}
    {halt : Halt} (hm : h.call operation m = .error halt m') :
    ∃ m₁, Port.call operation (m.withBot m.bot.val) = .error halt m₁ := by
  rcases h.call_cases operation m with ⟨a, m₁, bot, -, hcall⟩ | ⟨halt', m₁, bot, hc, hcall⟩
  · cases hcall.symm.trans hm
  · cases hcall.symm.trans hm
    exact ⟨m₁, hc⟩

theorem call_context [LawfulPort β] (h : Spares Q) (operation : Operation α)
    (m : Machine { b : β // Q b }) : ((h.call operation).after m).context = m.context := by
  have hcontext := LawfulPort.context operation (m.withBot m.bot.val)
  rcases h.call_cases operation m with ⟨a, m₁, bot, hc, hcall⟩ | ⟨halt, m₁, bot, hc, hcall⟩
  · rw [Run.after_of_ok hc] at hcontext
    rw [Run.after_of_ok hcall]
    exact hcontext
  · rw [Run.after_of_error hc] at hcontext
    rw [Run.after_of_error hcall]
    exact hcontext

theorem hostPort [LawfulPort β] (h : Spares Q) : @HostPort { b : β // Q b } h.port :=
  letI := h.port
  { context := h.call_context
    lasts := fun operation m m' hm => by
      obtain ⟨m₁, hc⟩ := h.call_of_error hm
      exact LawfulPort.lasts operation _ m₁ hc
    blameless := fun operation m e m' hm => by
      obtain ⟨m₁, hc⟩ := h.call_of_error hm
      exact h.silent operation m.bot.property hc }

end Spares

end AgentScript

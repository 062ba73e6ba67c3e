import AgentScript.Machine.Execution

/-! What commands and statements are made of, listed once: a property of parts of a run that obeys
these laws holds of every command, every statement and every run. What a bot does when it is asked
for something counts as one such part, and that of the in-memory world has laws of its own. -/
namespace AgentScript

/-- The operations that only ask a question. -/
inductive Operation.Question : {α : Type} → Operation α → Prop
  | position : Question .position
  | nearestEntity (target : String) : Question (.nearestEntity target)
  | nearestBlock (kind : Option String) : Question (.nearestBlock kind)
  | lookAt (p : Point) (unseen : Block) : Question (.lookAt p unseen)
  | findItem (name : String) : Question (.findItem name)
  | bestTool (block : Block) : Question (.bestTool block)

/-- What a request that the bot carries out does to it. -/
inductive Bot.Effect : Bot → Bot → Prop
  | hear (b : Bot) (text : String) : Effect b (b.hear text)
  | arriveAt (b : Bot) (p : Point) : Effect b (b.arriveAt p)
  | attack (b : Bot) : Effect b b
  | removeBlock (b : Bot) (block : Block) : Effect b (b.removeBlock block)
  | placeOn (b : Bot) (reference : Block) (face : Point) : Effect b (b.placeOn reference face)
  | hold (b : Bot) (item : Item) : Effect b (b.hold item)
  | discard (b : Bot) (type count : Int) : Effect b (b.discard type count)

namespace Run

variable {β : Type}

/-- Reads nothing of a machine but its bot, its context, its settings and its clock. -/
def ReadsWorld {γ : Type} (f : Machine β → γ) : Prop :=
  ∀ m m' : Machine β, m'.bot = m.bot → m'.context = m.context → m'.settings = m.settings →
    m'.clock = m.clock → f m' = f m

/-- Reads nothing of a machine but its settings and its clock. -/
def ReadsSettings {γ : Type} (f : Machine β → γ) : Prop :=
  ∀ m m' : Machine β, m'.settings = m.settings → m'.clock = m.clock → f m' = f m

theorem ReadsSettings.readsWorld {γ : Type} {f : Machine β → γ} (h : ReadsSettings f) :
    ReadsWorld f := fun m m' _ _ hs ht => h m m' hs ht

/-- Holds of whatever parts of a run are made of that do without the bot, without the context and
without errors of the script. -/
class StepLaw (P : (α : Type) → RunOn β α → Prop) : Prop where
  pure : ∀ {α : Type} (a : α), P α (pure a)
  fault : ∀ {α : Type} (f : Fault), P α (fail (.fault f))
  bind : ∀ {α γ : Type} {part : RunOn β α} {f : α → RunOn β γ}, P α part → (∀ a, P γ (f a)) →
    P γ (part >>= f)
  consult : ∀ {α : Type} {f : Machine β → RunOn β α}, ReadsSettings f → (∀ m, P α (f m)) →
    P α (get >>= f)
  attempt : ∀ {α : Type} {part : RunOn β α}, P α part → P _ (attempt part)
  locate : ∀ {α : Type} {part : RunOn β α} (loc : Location), P α part → P α (locate loc part)
  log : ∀ level text, P Unit (log level text)
  wait : ∀ time : Float → Float, P Unit (modify fun m => m.waitUntil (time m.clock))

/-- Holds of whatever parts of a run are made of, the bot apart. -/
class PartLaw (P : (α : Type) → RunOn β α → Prop) : Prop extends StepLaw P where
  read : ∀ {α : Type} {f : Machine β → RunOn β α}, ReadsWorld f → (∀ m, P α (f m)) →
    P α (get >>= f)
  fail : ∀ {α : Type} (t : Trouble), P α (fail t)
  consult := fun h hf => read h.readsWorld hf
  fault := fun f => fail (.fault f)

/-- Holds of whatever the bot of the in-memory world does. -/
class BotLaw (P : (α : Type) → Run α → Prop) : Prop extends PartLaw P where
  print : ∀ text, P Unit (modify (·.print text))
  record : ∀ call, P Unit (modify (·.record call))
  effect : ∀ {effect : Bot → Bot}, (∀ b : Bot, b.Effect (effect b)) →
    P Unit (modify fun m => { m with bot := effect m.bot })

/-- Holds of whatever statements are made of that name no variable, commands apart. -/
class QuietLaw (P : (α : Type) → RunOn β α → Prop) : Prop extends PartLaw P where
  checkStop : P Unit checkStop
  inScope : ∀ {part : RunOn β Unit}, P Unit part → P Unit (inScope part)
  iteration : ∀ {body : RunOn β Unit} (i : Nat), P Unit body → P Unit (iteration body i)
  last : ∀ result, P Unit
    (modify fun m => { m with last := some result, context := m.context.countCommand })
  count : P Unit (changeContext fun c => .ok c.countStatement)

variable [Port β]

/-- Holds of whatever searches of commands are made of. -/
class SearchLaw (P : (α : Type) → RunOn β α → Prop) : Prop extends StepLaw P where
  question : ∀ {α : Type} {operation : Operation α}, operation.Question →
    P α (Port.call operation)

/-- Holds of whatever searches and acts of commands are made of. -/
class PortLaw (P : (α : Type) → RunOn β α → Prop) : Prop extends SearchLaw P where
  call : ∀ {α : Type} (operation : Operation α), P α (Port.call operation)
  question := fun _ => call _

/-- Holds of whatever commands are made of. -/
class CommandLaw (P : (α : Type) → RunOn β α → Prop) : Prop extends PartLaw P, PortLaw P

/-- Holds of whatever statements are made of that name no variable. -/
class BlockLaw (P : (α : Type) → RunOn β α → Prop) : Prop extends CommandLaw P, QuietLaw P

/-- Holds of what statements do to variables of some names. -/
structure NameLaw (N : Label → Prop) (P : (α : Type) → RunOn β α → Prop) : Prop where
  declare : ∀ name v loc, N name → P Unit (changeContext (·.declare name v loc))
  assign : ∀ name v, N name → P Unit (changeContext (·.assign name v))

/-- Holds of whatever statements are made of. -/
class StatementLaw (P : (α : Type) → RunOn β α → Prop) : Prop extends BlockLaw P where
  index : ∀ i, P Unit (changeContext fun c =>
    (c.define indexName (.number (Float.ofNat i)) .local false ⟨0, 0⟩).mapError .error)
  declare : ∀ name v loc, P Unit (changeContext (·.declare name v loc))
  assign : ∀ name v, P Unit (changeContext (·.assign name v))
  iteration := fun i h => inScope (toStepLaw.bind (index i) fun _ => h)

end Run

end AgentScript

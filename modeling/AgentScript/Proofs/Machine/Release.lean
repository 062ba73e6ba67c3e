import AgentScript.Proofs.Except
import AgentScript.Proofs.Machine.Reach
import AgentScript.Proofs.Machine.Steps
import AgentScript.Syntax.Codec
import AgentScript.Syntax.Parser

/-! When a run sets its machine free. A run that has begun always does, whatever program it runs and
whatever the bot does to the machine meanwhile; but a program that announces no number of statements
fails after the machine was taken and before the run begins. -/
namespace AgentScript

variable {β : Type}

inductive Phase.Final : Phase → Prop
  | completed : Final .completed
  | failed : Final .failed
  | stopped : Final .stopped

namespace Machine

/-- A machine that no run holds: it takes another context and begins another program. -/
structure Released (m : Machine β) : Prop where
  idle : m.running = false
  phase : m.phase.Final
  context : ∀ c, m.setContext c = .ok { m with context := c }
  ready : ∃ m', m.begin = .ok m'

theorem begin_of_idle {m : Machine β} (hm : m.running = false) : ∃ m', m.begin = .ok m' := by
  unfold begin
  rw [hm]
  exact ⟨_, rfl⟩

theorem released_of_idle {m : Machine β} (hm : m.running = false) (hp : m.phase.Final) :
    m.Released := by
  refine ⟨hm, hp, fun c => ?_, begin_of_idle hm⟩
  unfold setContext
  rw [hm]
  rfl

variable [Port β]

/-- However the statements of a run end, the machine is free afterwards. -/
theorem released_ended (r : EStateM.Result Halt (Machine β) Unit) : (ended r).2.Released := by
  cases r with
  | ok u m => exact released_of_idle rfl .completed
  | error halt m =>
    cases halt with
    | stopped => exact released_of_idle rfl .stopped
    | trouble t =>
      cases t with
      | error e => exact released_of_idle rfl .failed
      | fault f => exact released_of_idle rfl .failed

theorem Begins.released {m m₀ : Machine β} {p : Program} {body : Body} (h : m.Begins p m₀ body) :
    (m.execute p).2.Released := by
  rw [h.execute_eq]
  exact released_ended _

end Machine

namespace Program

/-- A program has a block if it announces a number of statements. -/
theorem exists_body_of_size {p : Program} {n : Nat} (h : p.size = .ok n) :
    ∃ body, p.body = .ok body := by
  obtain ⟨body, hb, -⟩ := bind_eq_ok h
  exact ⟨body, hb⟩

theorem exists_size_of_source {source : String} {p : Program}
    (h : Program.ofSource source = .ok p) : ∃ n, p.size = .ok n := by
  unfold ofSource ofTokens at h
  dsimp only at h
  cases hs : Parser.statements (Parser.split (tokenize source)).2
      (Parser.split (tokenize source)).1 with
  | error t =>
    rw [hs] at h
    cases h
  | ok list =>
    rw [hs] at h
    cases h
    exact ⟨list.length, rfl⟩

end Program

namespace Machine

variable [Port β]

/-- Without a number of statements no run begins, but the machine stays taken. -/
theorem execute_unsized {m : Machine β} (hm : m.running = false) {p : Program} {f : Fault}
    (hp : p.size = .error f) : (m.execute p).2.running = true := by
  obtain ⟨m₀, h₀⟩ := begin_of_idle hm
  have htaken : m₀.running = true := by rw [begin_eq h₀]
  unfold execute
  rw [h₀, hp]
  cases p.body with
  | ok body => exact htaken
  | error f' => exact htaken

/-- A run of a program on an idle machine, with a bot that may do anything to the machine, sets the
machine free, whether it returns or breaks off, exactly if the program announces a number of
statements. Programs of sources do. -/
theorem execute_releases {m : Machine β} (hm : m.running = false) (p : Program) :
    ((m.execute p).2.Released ↔ ∃ n, p.size = .ok n) ∧
    ∀ source, Program.ofSource source = .ok p → (m.execute p).2.Released := by
  have hiff : (m.execute p).2.Released ↔ ∃ n, p.size = .ok n := by
    constructor
    · intro hr
      cases hs : p.size with
      | ok n => exact ⟨n, rfl⟩
      | error f =>
        have htaken := execute_unsized hm hs
        rw [hr.idle] at htaken
        cases htaken
    · rintro ⟨n, hn⟩
      obtain ⟨body, hb⟩ := Program.exists_body_of_size hn
      obtain ⟨m₀, h₀⟩ := begin_of_idle hm
      exact Begins.released (.intro h₀ hb hn)
  exact ⟨hiff, fun source h => hiff.mpr (Program.exists_size_of_source h)⟩

/-- A text in the place of the statements breaks the run off at its first character, and the machine
is free all the same. -/
theorem execute_releases_text :
    let m : Machine := .fresh {} {} 0
    let p : Program := .program ⟨1, 1⟩ (.misfit (.str "ab"))
    m.running = false ∧ (m.execute p).2.Released := by
  intro m p
  exact ⟨rfl, (execute_releases rfl p).1.mpr ⟨2, rfl⟩⟩

/-- A stored tree with a number in the place of the statements leaves the machine taken. -/
theorem number_for_statements_keeps_busy :
    let tree : Json := .obj [("type", .str "Program"), ("line", .int 1), ("column", .int 1),
      ("statements", .int 5)]
    let m : Machine := .fresh {} {} 0
    m.running = false ∧ ∃ p, Program.ofJson tree = .ok p ∧ ¬ (m.execute p).2.Released := by
  intro tree m
  refine ⟨rfl, .program ⟨1, 1⟩ (.misfit (.int 5)), rfl, fun hr => ?_⟩
  have htaken : (m.execute (.program ⟨1, 1⟩ (.misfit (.int 5)))).2.running = true :=
    execute_unsized rfl rfl
  rw [hr.idle] at htaken
  cases htaken

end Machine

end AgentScript

import AgentScript.Proofs.Bot.Nearest
import AgentScript.Proofs.Machine.History

/-! What the bot finds when it looks for the nearest entity or block, and what an attack hits. -/
namespace AgentScript

open Block (Laid)

namespace Machine

/-- The blocks of one machine came about one by one if those of another did. -/
def KeepsLaid (m m' : Machine) : Prop := Laid m.bot.blocks → Laid m'.bot.blocks

instance : Run.AllowsBot KeepsLaid where
  refl _ := id
  trans h h' := h' ∘ h
  output _ _ := id
  wait m time := by
    unfold KeepsLaid
    rw [m.waitUntil_bot]
    exact id
  record m call := by
    unfold KeepsLaid
    rw [m.record_bot]
    exact id
  effect m b h hl := by
    cases h with
    | removeBlock block => exact hl.drop block
    | placeOn reference face => exact hl.put ⟨m.bot.inHand, reference.position.shift face⟩
    | _ => exact hl

end Machine

theorem Bot.Spared.blocks_eq {b b' : Bot} (h : b.Spared b') : b'.blocks = b.blocks := by
  cases h <;> rfl

theorem Deed.Real.laid {d : Deed} (h : d.Real) (hl : Laid d.before.bot.blocks) :
    Laid d.after.bot.blocks := by
  have hc := Run.law_command (P := fun _ => Run.Keeps Machine.KeepsLaid) d.command d.before
  rw [h.after_eq] at hc
  exact hc hl

/-- Runs put blocks in and take blocks out one by one. -/
theorem Machine.execute_laid (m : Machine) (p : Program) (h : Laid m.bot.blocks) :
    (∀ d ∈ m.history p, Laid d.before.bot.blocks) ∧ Laid (m.execute p).2.bot.blocks := by
  obtain ⟨-, m₀, m₁, hi, hc, hs⟩ := m.execute_history p
  have hstart : Laid m₀.bot.blocks := by rwa [hi.spared.blocks_eq]
  obtain ⟨hall, hend⟩ := hc.keeps (J := fun m => Laid m.bot.blocks)
    (fun _ _ hi hl => by rwa [hi.spared.blocks_eq]) (fun _ hd hl => hd.laid hl) hstart
  refine ⟨hall, ?_⟩
  obtain ⟨_, hb⟩ := hs.bot_eq
  rwa [hb]

namespace Run

variable {m m' : Machine}

/-- An attack that succeeds hits what the bot found for the name, and changes nothing else. -/
theorem attack_ok {loc : Location} {target : Expr} {result : CommandResult}
    (h : command (.attack loc target) m = .ok result m') (hs : result.success = true) :
    ∃ v entity, target.eval m.context = .ok v ∧
      m.bot.nearestEntity v.text = .ok (some entity) ∧
      m'.bot = m.bot.recording [.attack entity] := by
  obtain ⟨r, hc, hr, -⟩ := command_ok h hs
  obtain ⟨name, m₁, hname, h₁⟩ := exists_of_bind_ok hc
  obtain ⟨⟨v, hv, rfl⟩, rfl⟩ := (reads_argumentText m target).of_ok hname
  obtain ⟨entity, m₂, hsite, h₂⟩ := atSite_ok h₁ hr
  unfold Search.targetNamed at hsite
  obtain ⟨found, m₃, ha, hf⟩ := search_bind_ok hsite
  obtain ⟨hq, rfl⟩ := search_ask_ok (·.nearestEntity v.text) rfl ha
  obtain ⟨rfl, rfl⟩ := found_ok hf
  obtain ⟨h₃, -⟩ := act_ok h₂ hr
  refine ⟨v, entity, hv, hq, ?_⟩
  rcases call_cases (.attack entity) m₂ with ⟨-, m₄, hc, hb⟩ | ⟨t, m₄, hc, -⟩
  · cases hc.symm.trans h₃
    exact hb
  · cases hc.symm.trans h₃

end Run

theorem Entity.matches_iff (e : Entity) (target : String) : e.matches target = true ↔
    target = e.name ∨ e.displayName = some target ∨ target = e.type ∨
      e.username = some target := by
  simp only [Entity.matches, Bool.or_eq_true, decide_eq_true_eq, or_assoc,
    eq_comm (a := some target)]

namespace Bot

/-- To look for the nearest finds the first of the nearest. Whatever is asked of entities, and
whatever kind of block is asked for, if all that is wanted has a distance that compares, then
nothing is found exactly if nothing is wanted, and otherwise the first thing to which nothing wanted
lies nearer; and the block that is found is seen at its position, as no two blocks are at one. A
block that is put where another is takes its place among the blocks, and runs keep all this up. So
an attack that succeeds hits an entity that has the name in one of four ways, and no other that has
it lies nearer. -/
theorem finds_first_nearest (b : Bot) (hl : Laid b.blocks) (hc : b.Candid) :
    (∀ wanted : Entity → Bool, Measurable (·.position) b.position wanted b.entities →
      ∃ r, b.nearestWhere wanted = .ok r ∧
        Selects (·.position) b.position wanted b.entities r) ∧
    (∀ target, b.nearestEntity target = b.nearestWhere (·.matches target)) ∧
    (∀ kind, Measurable (·.position) b.position (Bot.wanted kind) b.blocks →
      ∃ r, b.nearestBlock kind = .ok r ∧
        Selects (·.position) b.position (Bot.wanted kind) b.blocks r ∧
        ∀ block unseen, r = some block → b.lookAt block.position unseen = .ok (some block)) ∧
    (∀ block : Block, block.Put b.blocks (putBlock block b.blocks)) ∧
    (∀ (m : Machine) (p : Program), m.bot = b →
      (∀ d ∈ m.history p, Laid d.before.bot.blocks) ∧ Laid (m.execute p).2.bot.blocks) ∧
    ∀ (m : Machine) (loc : Location) (target : Expr) (result : CommandResult) (m' : Machine),
      m.bot = b → Run.command (.attack loc target) m = .ok result m' → result.success = true →
      ∃ v entity, target.eval m.context = .ok v ∧ m'.bot = b.recording [.attack entity] ∧
        entity ∈ b.entities ∧
        (v.text = entity.name ∨ entity.displayName = some v.text ∨ v.text = entity.type ∨
          entity.username = some v.text) ∧
        (Measurable (·.position) b.position (·.matches v.text) b.entities →
          ∃ d, b.position.distance entity.position = .ok d ∧
            ∀ other ∈ b.entities, other.matches v.text = true →
              ∃ e, b.position.distance other.position = .ok e ∧ ¬ e < d) := by
  refine ⟨fun wanted hm => hc.nearestWhere hm, b.nearestEntity_eq, fun kind hm => ?_,
    fun block => put_putBlock block _, fun m p hm => ?_,
    fun m loc target result m' hm hr hs => ?_⟩
  · obtain ⟨r, hr, hs⟩ := hc.nearestBlock hm
    refine ⟨r, hr, hs, fun block unseen h => ?_⟩
    rw [h] at hs
    exact hc.lookAt hl.apart hm hs unseen
  · subst hm
    exact m.execute_laid p hl
  · subst hm
    obtain ⟨v, entity, hv, hq, hb⟩ := Run.attack_ok hr hs
    obtain ⟨-, -, hnearest⟩ := bind_eq_ok hq
    have hin := List.mem_filter.mp (mem_of_nearest? (orFault_eq_ok hnearest))
    refine ⟨v, entity, hv, hb, hin.1, (entity.matches_iff v.text).mp hin.2, fun hm => ?_⟩
    cases selects_of_nearestWhere hm hq with
    | first hf => exact hf.not_nearer

/-- Of two blocks at the same distance the first is found, and seen where it is. -/
theorem finds_first_nearest_twins :
    let dirt : Block := ⟨"dirt", ⟨2, 64, 0⟩⟩
    let stone : Block := ⟨"stone", ⟨0, 64, 2⟩⟩
    let b : Bot := { blocks := putBlock stone (putBlock dirt []) }
    Laid b.blocks ∧ b.Candid ∧ b.nearestBlock none = .ok (some dirt) ∧
      Selects (·.position) b.position (Bot.wanted none) b.blocks (some dirt) ∧
      ∀ unseen, b.lookAt dirt.position unseen = .ok (some dirt) := by
  intro dirt stone b
  have hl : Laid b.blocks := .put stone (.put dirt .nil)
  have hc : b.Candid := ⟨by decide, rfl⟩
  have hm : Measurable (·.position) b.position (Bot.wanted none) b.blocks := by
    intro a ha _
    have hblocks : b.blocks = [dirt, stone] := by decide +kernel
    rw [hblocks] at ha
    rcases List.mem_cons.mp ha with rfl | ha
    · exact ⟨2, by decide +kernel, by decide +kernel⟩
    · rw [List.mem_singleton.mp ha]
      exact ⟨2, by decide +kernel, by decide +kernel⟩
  have hfound : b.nearestBlock none = .ok (some dirt) := by decide +kernel
  obtain ⟨r, hr, hs, hlook⟩ := (finds_first_nearest b hl hc).2.2.1 none hm
  cases hfound.symm.trans hr
  exact ⟨hl, hc, hfound, hs, fun unseen => hlook dirt unseen rfl⟩

end Bot

end AgentScript

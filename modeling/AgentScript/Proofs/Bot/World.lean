import AgentScript.Bot
import AgentScript.Proofs.Except
import AgentScript.Proofs.Number.Order

/-! What the bot's questions about its world find, and what becomes of its list of blocks when one is
put in or taken out. -/
namespace AgentScript

theorem Point.same_trans {p q r : Point} (hpq : p.same q = true) (hqr : q.same r = true) :
    p.same r = true := by
  simp only [Point.same, Bool.and_eq_true] at *
  obtain ⟨⟨hx, hy⟩, hz⟩ := hpq
  obtain ⟨⟨hx', hy'⟩, hz'⟩ := hqr
  exact ⟨⟨Number.beq_trans hx hx', Number.beq_trans hy hy'⟩, Number.beq_trans hz hz'⟩

section Nearest

variable {α : Type}

theorem map_of_measure {size : α → Except Fault Float} {as : List α} {measured : List (α × Float)}
    (h : measure size as = .ok measured) : measured.map (·.1) = as := by
  induction as generalizing measured with
  | nil =>
    cases h
    rfl
  | cons a as ih =>
    obtain ⟨d, -, h⟩ := bind_eq_ok h
    obtain ⟨rest, hr, h⟩ := bind_eq_ok h
    cases h
    rw [List.map_cons, ih hr]

theorem firstLeast_mem (best : α × Float) (rest : List (α × Float)) :
    firstLeast best rest ∈ (best :: rest).map (·.1) := by
  induction rest generalizing best with
  | nil => exact List.mem_singleton.mpr rfl
  | cons next rest ih =>
    unfold firstLeast
    by_cases h : next.2 < best.2
    · rw [if_pos h]
      exact List.mem_cons_of_mem _ (ih next)
    · rw [if_neg h]
      rcases List.mem_cons.mp (ih best) with hb | hr
      · rw [hb]
        exact List.mem_cons_self
      · exact List.mem_cons_of_mem _ (List.mem_cons_of_mem _ hr)

theorem mem_of_nearest? {place : α → Point} {origin : Point} {candidates : List α} {a : α}
    (h : nearest? place origin candidates = .ok (some a)) : a ∈ candidates := by
  obtain ⟨measured, hm, h⟩ := bind_eq_ok h
  rw [← map_of_measure hm]
  cases measured with
  | nil => cases h
  | cons first rest =>
    cases h
    exact firstLeast_mem first rest

end Nearest

namespace Bot

theorem orFault_eq_ok {α : Type} {r : Except Fault α} {a : α} (h : orFault r = .ok a) :
    r = .ok a := by
  cases r with
  | ok b =>
    cases h
    rfl
  | error f => cases h

variable {b : Bot}

/-- What the bot finds when it is asked for the nearest of some things is one of them. -/
theorem mem_of_askNearest {α : Type} {request : Request} {place : α → Point} {origin : Point}
    {wanted : α → Bool} {as : List α} {a : α}
    (h : (b.ask request >>= fun _ => orFault (nearest? place origin (as.filter wanted))) =
      .ok (some a)) : a ∈ as := by
  obtain ⟨-, -, h⟩ := bind_eq_ok h
  exact (List.mem_filter.mp (mem_of_nearest? (orFault_eq_ok h))).1

theorem mem_of_nearestEntity {target : String} {entity : Entity}
    (h : b.nearestEntity target = .ok (some entity)) : entity ∈ b.entities := mem_of_askNearest h

theorem mem_of_nearestBlock {kind : Option String} {block : Block}
    (h : b.nearestBlock kind = .ok (some block)) : block ∈ b.blocks := mem_of_askNearest h

theorem eq_of_lookAt {p : Point} {unseen block : Block}
    (h : b.lookAt p unseen = .ok (some block)) :
    block = (b.blocks.find? (·.position.same p)).getD unseen := by
  obtain ⟨-, -, h⟩ := bind_eq_ok h
  split at h
  · cases h
  · cases h
    rfl

/-- What is seen at a position, unless it is what is seen where there is nothing, is a block of the
world. -/
theorem mem_of_lookAt {p : Point} {unseen block : Block}
    (h : b.lookAt p unseen = .ok (some block)) (hn : block.name ≠ unseen.name) :
    block ∈ b.blocks := by
  rw [eq_of_lookAt h] at hn ⊢
  cases hf : b.blocks.find? (·.position.same p) with
  | none =>
    rw [hf] at hn
    exact (hn rfl).elim
  | some found => exact List.mem_of_find?_eq_some hf

theorem name_of_findItem {name : String} {item : Item}
    (h : b.findItem name = .ok (some item)) : item.name = name := by
  obtain ⟨-, -, h⟩ := bind_eq_ok h
  have hf : b.items.find? (·.name = name) = some item := Except.ok.inj h
  simpa using List.find?_some hf

end Bot

namespace Block

/-- Two lists of blocks, of which the second has the block at its position and is the first one
otherwise: the block has taken the place of one that was there, or is new and stands last. -/
inductive Put (block : Block) : List Block → List Block → Prop
  | replaced (before : List Block) {after : List Block} {old : Block}
    (h : old.position.same block.position = true) :
    Put block (before ++ old :: after) (before ++ block :: after)
  | added (blocks : List Block)
    (h : ∀ b ∈ blocks, b.position.same block.position = false) :
    Put block blocks (blocks ++ [block])

theorem Put.cons {block : Block} {blocks blocks' : List Block} (h : block.Put blocks blocks')
    {first : Block} (hf : first.position.same block.position = false) :
    block.Put (first :: blocks) (first :: blocks') := by
  cases h with
  | replaced before h => exact .replaced (first :: before) h
  | added _ h =>
    refine .added (first :: blocks) fun b hb => ?_
    rcases List.mem_cons.mp hb with rfl | hb
    · exact hf
    · exact h b hb

end Block

namespace Bot

theorem put_putBlock (block : Block) (blocks : List Block) :
    block.Put blocks (putBlock block blocks) := by
  induction blocks with
  | nil => exact .added [] fun _ hb => nomatch hb
  | cons first rest ih =>
    unfold putBlock
    cases h : first.position.same block.position with
    | true => exact .replaced [] h
    | false => exact ih.cons h

/-- The block that is found at the position of a block of the list is the one that is taken out. -/
theorem exists_dropBlock {blocks : List Block} {nearest block : Block} (hn : nearest ∈ blocks)
    (hb : block = (blocks.find? (·.position.same nearest.position)).getD nearest) :
    ∃ before after, blocks = before ++ block :: after ∧
      dropBlock block blocks = before ++ after := by
  unfold dropBlock
  cases hf : blocks.find? (·.position.same nearest.position) with
  | some found =>
    obtain rfl : block = found := by rw [hb, hf, Option.getD_some]
    obtain ⟨hs, before, after, rfl, hbefore⟩ := List.find?_eq_some_iff_append.mp hf
    refine ⟨before, after, rfl, ?_⟩
    -- Nothing before it is at its position, as that would be the position of the nearest as well.
    have hother : ∀ b ∈ before, ¬ (b.position.same block.position || decide (b = block)) = true := by
      intro b hm h
      have hns : ¬ b.position.same nearest.position = true := by simpa using hbefore b hm
      rcases (Bool.or_eq_true _ _).mp h with h | h
      · exact hns (Point.same_trans h hs)
      · rw [of_decide_eq_true h] at hns
        exact hns hs
    rw [List.eraseP_append_right _ hother, List.eraseP_cons_of_pos (by simp)]
  | none =>
    obtain rfl : block = nearest := by rw [hb, hf, Option.getD_none]
    obtain ⟨found, before, after, -, hfound, rfl, he⟩ := List.exists_of_eraseP
      (p := fun b => b.position.same block.position || decide (b = block)) hn (by simp)
    refine ⟨before, after, ?_, he⟩
    have hns := List.find?_eq_none.mp hf found (by simp)
    simp only [hns, Bool.false_or, decide_eq_true_eq] at hfound
    rw [hfound]

end Bot

end AgentScript

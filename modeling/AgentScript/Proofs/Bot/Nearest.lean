import AgentScript.Proofs.Bot.World
import AgentScript.Proofs.Number.Rank

/-! What is found when the nearest of some things is asked for, and what is seen where it was
found. -/
namespace AgentScript

section Selection

variable {α : Type} {place : α → Point} {origin : Point} {wanted : α → Bool} {as : List α}

/-- All that is wanted has a distance from a point, and all these distances compare. -/
def Measurable (place : α → Point) (origin : Point) (wanted : α → Bool) (as : List α) : Prop :=
  ∀ a ∈ as, wanted a = true → ∃ d, origin.distance (place a) = .ok d ∧ d.isNaN = false

/-- The first of the things that are wanted and nearest to a point: what is wanted and stands before
it lies farther away, and what is wanted and stands behind it lies no nearer. -/
structure FirstNearest (place : α → Point) (origin : Point) (wanted : α → Bool) (as : List α)
    (a : α) : Prop where
  wants : wanted a = true
  nearest : ∃ d before after, as = before ++ a :: after ∧ origin.distance (place a) = .ok d ∧
    (∀ b ∈ before, wanted b = true → ∃ e, origin.distance (place b) = .ok e ∧ d < e) ∧
    ∀ b ∈ after, wanted b = true → ∃ e, origin.distance (place b) = .ok e ∧ d ≤ e

/-- What is found when the nearest is asked for: nothing if nothing is wanted, and else the first of
the nearest. -/
inductive Selects (place : α → Point) (origin : Point) (wanted : α → Bool) (as : List α) :
    Option α → Prop
  | nothing (h : ∀ a ∈ as, wanted a = false) : Selects place origin wanted as none
  | first {a : α} (h : FirstNearest place origin wanted as a) :
    Selects place origin wanted as (some a)

/-- The search for the first of the least, told by where it ends. -/
theorem firstLeast_split (best : α × Float) (rest : List (α × Float))
    (hn : ∀ p ∈ best :: rest, p.2.isNaN = false) :
    ∃ a d before after, best :: rest = before ++ (a, d) :: after ∧ firstLeast best rest = a ∧
      (∀ p ∈ before, d < p.2) ∧ ∀ p ∈ after, d ≤ p.2 := by
  induction rest generalizing best with
  | nil => exact ⟨best.1, best.2, [], [], rfl, rfl, fun _ h => (nomatch h), fun _ h => (nomatch h)⟩
  | cons next rest ih =>
    have hbest := hn best List.mem_cons_self
    have hnext := hn next (List.mem_cons_of_mem _ List.mem_cons_self)
    unfold firstLeast
    by_cases hlt : next.2 < best.2
    · rw [if_pos hlt]
      obtain ⟨a, d, before, after, hs, hf, hbefore, hafter⟩ := ih next fun p hp =>
        hn p (List.mem_cons_of_mem _ hp)
      -- What is found is the next one or nearer, so the best so far lies farther away.
      refine ⟨a, d, best :: before, after, by rw [hs]; rfl, hf, fun p hp => ?_, hafter⟩
      rcases List.mem_cons.mp hp with rfl | hp
      · cases before with
        | nil =>
          cases hs
          exact hlt
        | cons first before =>
          cases hs
          exact Number.lt_trans (hbefore _ List.mem_cons_self) hlt
      · exact hbefore p hp
    · rw [if_neg hlt]
      have hle : best.2 ≤ next.2 := Number.le_iff_not_lt.mpr ⟨hbest, hnext, hlt⟩
      obtain ⟨a, d, before, after, hs, hf, hbefore, hafter⟩ := ih best fun p hp => by
        rcases List.mem_cons.mp hp with rfl | hp
        · exact hbest
        · exact hn p (List.mem_cons_of_mem _ (List.mem_cons_of_mem _ hp))
      cases before with
      | nil =>
        cases hs
        refine ⟨a, d, [], next :: rest, rfl, hf, fun _ h => (nomatch h), fun p hp => ?_⟩
        rcases List.mem_cons.mp hp with rfl | hp
        · exact hle
        · exact hafter p hp
      | cons first before =>
        cases hs
        have hd : d < next.2 := Number.lt_of_lt_of_le (hbefore _ List.mem_cons_self) hle
        refine ⟨a, d, best :: next :: before, after, rfl, hf, fun p hp => ?_, hafter⟩
        rcases List.mem_cons.mp hp with rfl | hp
        · exact hbefore _ List.mem_cons_self
        rcases List.mem_cons.mp hp with rfl | hp
        · exact hd
        · exact hbefore p (List.mem_cons_of_mem _ hp)

theorem exists_measure {size : α → Except Fault Float} (h : ∀ a ∈ as, ∃ d, size a = .ok d) :
    ∃ measured, measure size as = .ok measured := by
  induction as with
  | nil => exact ⟨[], rfl⟩
  | cons a as ih =>
    obtain ⟨d, hd⟩ := h a List.mem_cons_self
    obtain ⟨measured, hm⟩ := ih fun b hb => h b (List.mem_cons_of_mem _ hb)
    refine ⟨(a, d) :: measured, ?_⟩
    rw [measure, hd, hm]
    rfl

theorem size_of_measure {size : α → Except Fault Float} {measured : List (α × Float)}
    (h : measure size as = .ok measured) : ∀ p ∈ measured, size p.1 = .ok p.2 := by
  induction as generalizing measured with
  | nil =>
    cases h
    exact fun _ hp => nomatch hp
  | cons a as ih =>
    obtain ⟨d, hd, h⟩ := bind_eq_ok h
    obtain ⟨rest, hr, h⟩ := bind_eq_ok h
    cases h
    intro p hp
    rcases List.mem_cons.mp hp with rfl | hp
    · exact hd
    · exact ih hr p hp

/-- What stands before or behind a wanted thing among all things is wanted only if it does among the
wanted ones. -/
theorem exists_of_filter_eq {before after : List α} {a : α}
    (h : as.filter wanted = before ++ a :: after) :
    wanted a = true ∧ ∃ before' after', as = before' ++ a :: after' ∧
      (∀ b ∈ before', wanted b = true → b ∈ before) ∧
      ∀ b ∈ after', wanted b = true → b ∈ after := by
  obtain ⟨left, right, rfl, rfl, hright⟩ := List.filter_eq_append_iff.mp h
  obtain ⟨skipped, after', rfl, hskipped, ha, rfl⟩ := List.filter_eq_cons_iff.mp hright
  refine ⟨ha, left ++ skipped, after', by simp, fun b hb hw => ?_, fun b hb hw => ?_⟩
  · rcases List.mem_append.mp hb with hb | hb
    · exact List.mem_filter.mpr ⟨hb, hw⟩
    · exact absurd hw (hskipped b hb)
  · exact List.mem_filter.mpr ⟨hb, hw⟩

/-- What is the first of the least among the measured is the first of the nearest among all. -/
theorem firstNearest_of_measure {a : α} {d : Float} {before after : List (α × Float)}
    (h : measure (fun a => origin.distance (place a)) (as.filter wanted) =
      .ok (before ++ (a, d) :: after))
    (hbefore : ∀ p ∈ before, d < p.2) (hafter : ∀ p ∈ after, d ≤ p.2) :
    FirstNearest place origin wanted as a := by
  have hsize := size_of_measure h
  have hmap := map_of_measure h
  rw [List.map_append, List.map_cons] at hmap
  obtain ⟨hw, before', after', has, hb', ha'⟩ := exists_of_filter_eq hmap.symm
  refine ⟨hw, d, before', after', has, hsize (a, d) (by simp), fun b hb hwb => ?_,
    fun b hb hwb => ?_⟩
  · obtain ⟨p, hp, rfl⟩ := List.mem_map.mp (hb' b hb hwb)
    exact ⟨p.2, hsize p (by simp [hp]), hbefore p hp⟩
  · obtain ⟨p, hp, rfl⟩ := List.mem_map.mp (ha' b hb hwb)
    exact ⟨p.2, hsize p (by simp [hp]), hafter p hp⟩

/-- To ask for the nearest finds the first of the nearest, if all distances compare. -/
theorem nearest?_selects (h : Measurable place origin wanted as) :
    ∃ r, nearest? place origin (as.filter wanted) = .ok r ∧
      Selects place origin wanted as r := by
  have hsized : ∀ a ∈ as.filter wanted, ∃ d, origin.distance (place a) = .ok d := by
    intro a ha
    obtain ⟨ha, hw⟩ := List.mem_filter.mp ha
    obtain ⟨d, hd, -⟩ := h a ha hw
    exact ⟨d, hd⟩
  obtain ⟨measured, hm⟩ := exists_measure hsized
  have hmap := map_of_measure hm
  unfold nearest?
  rw [hm]
  cases measured with
  | nil =>
    refine ⟨none, rfl, .nothing fun a ha => Bool.eq_false_iff.mpr fun hw => ?_⟩
    have hin := List.mem_filter.mpr ⟨ha, hw⟩
    rw [← hmap] at hin
    cases hin
  | cons best rest =>
    have hn : ∀ p ∈ best :: rest, p.2.isNaN = false := by
      intro p hp
      have hin : p.1 ∈ as.filter wanted := hmap ▸ List.mem_map_of_mem hp
      obtain ⟨hin, hw⟩ := List.mem_filter.mp hin
      obtain ⟨d, hd, hnan⟩ := h p.1 hin hw
      cases hd.symm.trans (size_of_measure hm p hp)
      exact hnan
    obtain ⟨a, d, before, after, hs, hf, hbefore, hafter⟩ := firstLeast_split best rest hn
    rw [hs] at hm
    exact ⟨some a, by rw [← hf]; rfl, .first (firstNearest_of_measure hm hbefore hafter)⟩

/-- Nothing that is wanted lies nearer than the first of the nearest. -/
theorem FirstNearest.not_nearer {a : α} (h : FirstNearest place origin wanted as a) :
    ∃ d, origin.distance (place a) = .ok d ∧ ∀ b ∈ as, wanted b = true →
      ∃ e, origin.distance (place b) = .ok e ∧ ¬ e < d := by
  obtain ⟨d, before, after, rfl, hd, hbefore, hafter⟩ := h.nearest
  refine ⟨d, hd, fun b hb hw => ?_⟩
  rcases List.mem_append.mp hb with hb | hb
  · obtain ⟨e, he, hlt⟩ := hbefore b hb hw
    exact ⟨e, he, Number.lt_asymm hlt⟩
  rcases List.mem_cons.mp hb with rfl | hb
  · exact ⟨d, hd, Number.lt_irrefl d⟩
  · obtain ⟨e, he, hle⟩ := hafter b hb hw
    exact ⟨e, he, (Number.le_iff_not_lt.mp hle).2.2⟩

end Selection

namespace Point

theorem same_symm {p q : Point} (h : p.same q = true) : q.same p = true := by
  simp only [same, Bool.and_eq_true] at *
  exact ⟨⟨Number.beq_symm h.1.1, Number.beq_symm h.1.2⟩, Number.beq_symm h.2⟩

theorem square_ok {x s : Float} (h : square x = .ok s) : s = x * x := by
  unfold square at h
  dsimp only at h
  split at h
  · cases h
  · cases h
    rfl

theorem distance_ok {p q : Point} {d : Float} (h : p.distance q = .ok d) :
    d = ((p.x - q.x) * (p.x - q.x) + (p.y - q.y) * (p.y - q.y) +
      (p.z - q.z) * (p.z - q.z)).sqrt := by
  obtain ⟨x, hx, h⟩ := bind_eq_ok h
  obtain ⟨y, hy, h⟩ := bind_eq_ok h
  obtain ⟨z, hz, h⟩ := bind_eq_ok h
  cases h
  rw [square_ok hx, square_ok hy, square_ok hz]

theorem isNaN_of_square {a c : Float} (h : ¬ ((a - c) * (a - c)).isNaN = true) :
    c.isNaN = false :=
  Bool.eq_false_iff.mpr fun hc => h (Number.isNaN_mul (.inl (Number.isNaN_sub (.inr hc))))

/-- What has a distance that compares is at a position that is equal to itself. -/
theorem same_self {p q : Point} {d : Float} (h : p.distance q = .ok d) (hn : d.isNaN = false) :
    q.same q = true := by
  rw [distance_ok h] at hn
  obtain ⟨hplane, hz⟩ := Number.not_isNaN_of_add (mt Number.isNaN_sqrt (Bool.eq_false_iff.mp hn))
  obtain ⟨hx, hy⟩ := Number.not_isNaN_of_add hplane
  simp only [same, Number.beq_self (isNaN_of_square hx), Number.beq_self (isNaN_of_square hy),
    Number.beq_self (isNaN_of_square hz), Bool.and_self]

end Point

namespace Block

/-- Lists of blocks that came about by putting blocks in and taking blocks out, one by one. -/
inductive Laid : List Block → Prop
  | nil : Laid []
  | put {blocks : List Block} (block : Block) (h : Laid blocks) : Laid (Bot.putBlock block blocks)
  | drop {blocks : List Block} (block : Block) (h : Laid blocks) :
    Laid (Bot.dropBlock block blocks)

/-- No two blocks are at the same position. -/
def Apart (blocks : List Block) : Prop :=
  blocks.Pairwise fun b c => b.position.same c.position = false

theorem Put.apart {block : Block} {blocks blocks' : List Block} (h : block.Put blocks blocks')
    (ha : Apart blocks) : Apart blocks' := by
  cases h with
  | replaced before hsame =>
    obtain ⟨hbefore, hrest, hcross⟩ := List.pairwise_append.mp ha
    obtain ⟨hold, hafter⟩ := List.pairwise_cons.mp hrest
    refine List.pairwise_append.mpr ⟨hbefore, List.pairwise_cons.mpr ⟨fun c hc => ?_, hafter⟩,
      fun b hb c hc => ?_⟩
    · exact Bool.eq_false_iff.mpr fun h =>
        Bool.noConfusion ((hold c hc).symm.trans (Point.same_trans hsame h))
    · rcases List.mem_cons.mp hc with rfl | hc
      · have hother := hcross b hb _ List.mem_cons_self
        exact Bool.eq_false_iff.mpr fun h =>
          Bool.noConfusion (hother.symm.trans (Point.same_trans h (Point.same_symm hsame)))
      · exact hcross b hb c (List.mem_cons_of_mem _ hc)
  | added _ hnew =>
    refine List.pairwise_append.mpr ⟨ha, List.pairwise_singleton _ _, fun b hb c hc => ?_⟩
    rw [List.mem_singleton.mp hc]
    exact hnew b hb

theorem Laid.apart {blocks : List Block} (h : Laid blocks) : Apart blocks := by
  induction h with
  | nil => exact .nil
  | put block _ ih => exact (Bot.put_putBlock block _).apart ih
  | drop block _ ih => exact ih.sublist List.eraseP_sublist

/-- A block of a list is what is found at its position, if that is equal to itself. -/
theorem Apart.find {blocks : List Block} {block : Block} (h : Apart blocks) (hb : block ∈ blocks)
    (hs : block.position.same block.position = true) :
    blocks.find? (·.position.same block.position) = some block := by
  obtain ⟨before, after, rfl⟩ := List.append_of_mem hb
  refine List.find?_eq_some_iff_append.mpr ⟨hs, before, after, rfl, fun b hb => ?_⟩
  rw [(List.pairwise_append.mp h).2.2 b hb block List.mem_cons_self]
  rfl

end Block

namespace Bot

/-- A bot that answers all questions about its world, and sees what is at every position. It may
refuse whatever else it is asked for. -/
structure Candid (b : Bot) : Prop where
  answers : ∀ request ∈ Request.questions, b.refusal? request = none
  sees : b.void = []

def nearestWhere (b : Bot) (wanted : Entity → Bool) : Except Trouble (Option Entity) := do
  b.ask .nearestEntity
  orFault (nearest? (·.position) b.position (b.entities.filter wanted))

theorem nearestEntity_eq (b : Bot) (target : String) :
    b.nearestEntity target = b.nearestWhere (·.matches target) := rfl

variable {b : Bot}

/-- What an answer to the search for an entity is, whether or not the bot answers everything. -/
theorem selects_of_nearestWhere {wanted : Entity → Bool} {r : Option Entity}
    (hm : Measurable (·.position) b.position wanted b.entities)
    (h : b.nearestWhere wanted = .ok r) :
    Selects (·.position) b.position wanted b.entities r := by
  obtain ⟨-, -, h⟩ := bind_eq_ok h
  obtain ⟨r', hr, hs⟩ := nearest?_selects hm
  cases hr.symm.trans (orFault_eq_ok h)
  exact hs

theorem Candid.ask (h : b.Candid) {request : Request} (hr : request ∈ Request.questions) :
    b.ask request = .ok () := by
  rw [Bot.ask, h.answers request hr]

theorem Candid.nearestWhere (h : b.Candid) {wanted : Entity → Bool}
    (hm : Measurable (·.position) b.position wanted b.entities) :
    ∃ r, b.nearestWhere wanted = .ok r ∧
      Selects (·.position) b.position wanted b.entities r := by
  obtain ⟨r, hr, hs⟩ := nearest?_selects hm
  refine ⟨r, ?_, hs⟩
  rw [Bot.nearestWhere, h.ask (by decide), hr]
  rfl

theorem Candid.nearestBlock (h : b.Candid) {kind : Option String}
    (hm : Measurable (·.position) b.position (wanted kind) b.blocks) :
    ∃ r, b.nearestBlock kind = .ok r ∧
      Selects (·.position) b.position (wanted kind) b.blocks r := by
  obtain ⟨r, hr, hs⟩ := nearest?_selects hm
  refine ⟨r, ?_, hs⟩
  rw [Bot.nearestBlock, h.ask (by decide), hr]
  rfl

/-- Where a block was found, the bot sees that block. -/
theorem Candid.lookAt (h : b.Candid) (ha : Block.Apart b.blocks) {kind : Option String}
    {block : Block} (hm : Measurable (·.position) b.position (wanted kind) b.blocks)
    (hs : Selects (·.position) b.position (wanted kind) b.blocks (some block)) (unseen : Block) :
    b.lookAt block.position unseen = .ok (some block) := by
  cases hs with
  | first hf =>
    obtain ⟨-, before, after, hblocks, -⟩ := hf.nearest
    have hin : block ∈ b.blocks := by
      rw [hblocks]
      simp
    obtain ⟨d, hd, hn⟩ := hm block hin hf.wants
    rw [Bot.lookAt, h.ask (by decide), h.sees, ha.find hin (Point.same_self hd hn)]
    rfl

end Bot

end AgentScript

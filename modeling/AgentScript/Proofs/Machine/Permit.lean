import AgentScript.Proofs.Machine.History

/-! What stands behind the calls that change blocks: which command made them, what it had found in
the world, and what it had taken into the hand. -/
namespace AgentScript

open RunOn (after)

/-- The calls that change a block of the world. -/
inductive Call.ChangesBlock : Call → Prop
  | dig (block : Block) : ChangesBlock (.dig block)
  | place (reference : Block) (face : Point) : ChangesBlock (.place reference face)

def Context.Gives (context : Context) (given : Option Point) :
    Option Expr → Option Expr → Option Expr → Prop
  | some x, some y, some z => ∃ p, given = some p ∧ Expr.Locate context x y z p
  | _, _, _ => given = none

/-- The bot takes an item into its hand, if there is one to take. This is all that it is asked for,
and it does not refuse. -/
inductive Machine.Wields (m : Machine) : Option Item → Machine → Prop
  | nothing : m.Wields none m
  | item {item : Item} {m' : Machine} (h : Run.hold item m = .ok () m')
    (hb : m'.bot = (m.bot.hold item).recording [.equip item m.settings.equipDestination]) :
    m.Wields (some item) m'

/-- The calls that a command may make to change a block, each with the machine on which it is made.
What it takes for that was found out on the machine that the command began with, and the hand is
ready. -/
inductive Command.Permits (m : Machine) : Command → Machine → Call → Prop
  | dig {loc : Location} {kind : Option Expr} {wanted : Option String} {block : Block}
    {tool : Option Item} {now : Machine}
    (hk : kind.mapM (fun e => Value.text <$> e.eval m.context) = .ok wanted)
    (hs : m.bot.DigSite m.settings.reach wanted block) (ht : m.bot.bestTool block = .ok tool)
    (hw : m.Wields tool now) :
    Permits m (.dig loc kind) now (.dig block)
  | place {loc : Location} {item : Expr} {x y z : Option Expr} {v : Value} {given : Option Point}
    {spot : Spot} {now : Machine}
    (hv : item.eval m.context = .ok v) (hg : m.context.Gives given x y z)
    (hs : m.bot.PlaceSite m.settings.reach v.text spot) (hp : m.bot.Target given spot.position)
    (hw : m.Wields (some spot.item) now) :
    Permits m (.place loc item x y z) now (.place spot.support Point.up)

/-- The record has grown from one machine to another, and behind each of the new calls that change a
block there is something, which depends on the record before it. -/
structure Backed (Q : List Call → Call → Prop) (m m' : Machine) : Prop where
  grown : m.bot.calls.toList <+: m'.bot.calls.toList
  backed : ∀ before call rest, m'.bot.calls.toList = before ++ call :: rest →
    m.bot.calls.size ≤ before.length → call.ChangesBlock → Q before call

namespace Backed

variable {Q Q' : List Call → Call → Prop} {m m' m'' : Machine}

theorem of_calls (calls : List Call) (hc : m'.bot.calls.toList = m.bot.calls.toList ++ calls)
    (h : ∀ before call rest, calls = before ++ call :: rest → call.ChangesBlock →
      Q (m.bot.calls.toList ++ before) call) : Backed Q m m' where
  grown := ⟨calls, hc.symm⟩
  backed before call rest he hl hb := by
    rw [hc] at he
    rcases List.append_eq_append_iff.mp he with ⟨more, rfl, hm⟩ | ⟨more, hm, hr⟩
    · exact h more call rest hm hb
    · -- The record before the call is as long as the one to begin with, so it is that.
      have hnil : more = [] := by
        have := congrArg List.length hm
        rw [List.length_append, Array.length_toList] at this
        exact List.length_eq_zero_iff.mp (by omega)
      subst hnil
      rw [List.append_nil] at hm
      rw [← hm, ← List.append_nil m.bot.calls.toList]
      exact h [] call rest hr.symm hb

theorem of_bot (h : m'.bot = m.bot) : Backed Q m m' :=
  of_calls [] (by rw [h, List.append_nil]) fun before _ _ he => by
    cases before <;> cases he

theorem of_one (call : Call) (hc : m'.bot.calls = m.bot.calls.push call)
    (h : call.ChangesBlock → Q m.bot.calls.toList call) : Backed Q m m' :=
  of_calls [call] (by rw [hc, Array.toList_push]) fun before call' rest he hb => by
    obtain ⟨rfl, rfl, -⟩ : before = [] ∧ call = call' ∧ rest = [] := by
      cases before with
      | nil =>
        cases he
        exact ⟨rfl, rfl, rfl⟩
      | cons _ before => cases before <;> cases he
    rw [List.append_nil]
    exact h hb

theorem trans (h : Backed Q m m') (h' : Backed Q m' m'') : Backed Q m m'' where
  grown := h.grown.trans h'.grown
  backed before call rest he hl hb := by
    obtain ⟨calls, hc⟩ := h'.grown
    rcases List.append_eq_append_iff.mp (hc.trans he) with ⟨more, rfl, -⟩ | ⟨more, hm, hr⟩
    · exact h'.backed _ call rest he (by simp) hb
    · cases more with
      | nil =>
        rw [List.append_nil] at hm
        exact h'.backed before call rest he (by rw [← hm]; simp) hb
      | cons first more =>
        cases hr
        exact h.backed before call more hm hl hb

theorem mono (h : Backed Q m m') (hQ : ∀ before call, Q before call → Q' before call) :
    Backed Q' m m' where
  grown := h.grown
  backed before call rest he hl hb := hQ _ _ (h.backed before call rest he hl hb)

end Backed

theorem Machine.Idles.backed {Q : List Call → Call → Prop} {m m' : Machine} (h : m.Idles m') :
    Backed Q m m' := by
  obtain ⟨-, calls, hv, hb⟩ := h
  refine .of_calls calls (by rw [hb]; simp [Bot.recording])
    fun before call rest he hc => ?_
  have hvitals : call = .vitals := hv call (he ▸ List.mem_append_right _ List.mem_cons_self)
  rw [hvitals] at hc
  cases hc

namespace Run

variable {α γ : Type} {Q : List Call → Call → Prop} {m : Machine}

instance : AllowsParts (Backed Q) where
  refl _ := .of_bot rfl
  trans := .trans
  output _ _ := .of_bot rfl
  wait m time := .of_bot (m.waitUntil_bot time)

theorem rel_atSite {R : Machine → Machine → Prop} [AllowsParts R] {search : Search Bot γ}
    {act : γ → Run CommandResult} (hk : Keeps R search.run)
    (h : ∀ site m₁, search.run m = .ok (.ok site) m₁ → R m₁ ((act site).after m₁)) :
    R m ((atSite search act).after m) := by
  refine rel_bind (hk m) fun r m₁ hr => ?_
  cases r with
  | ok site => exact h site m₁ hr
  | error o => exact Lasting.refl m₁

theorem backed_call {operation : Operation Unit} {call : Call} {effect : Bot → Bot}
    (ho : operation.Acts call effect) (he : ∀ b : Bot, (effect b).calls = b.calls)
    (h : call.ChangesBlock → Q m.bot.calls.toList call) :
    Backed Q m ((Port.call operation : Run Unit).after m) := by
  refine .of_one call ?_ h
  rcases call_cases ho m with ⟨-, m', hm, hb⟩ | ⟨t, m', hm, hb⟩
  · rw [after_of_ok hm, hb, he]
    simp [Bot.recording]
  · rw [after_of_error hm, hb]
    simp [Bot.recording]

theorem keeps_journey (target : Point) :
    Keeps (Backed Q) (Port.call (.goto target)) := by
  intro m
  have went : ∀ m' : Machine, m'.bot.calls =
      m.bot.calls.push (.goto target.x target.y target.z) → Backed Q m m' :=
    fun _ hc => .of_one _ hc (by rintro ⟨⟩)
  have hj := journey_cases target m
  generalize hg : (Port.call (.goto target) : Run Bool) m = r at hj
  cases hj with
  | unbegun _ hb =>
    rw [after_of_ok hg]
    exact .of_bot hb
  | arrived _ _ hb =>
    rw [after_of_ok hg]
    refine went _ ?_
    rw [hb]
    simp [Bot.recording, Bot.arriveAt]
  | late _ _ hb =>
    rw [after_of_ok hg]
    refine went _ ?_
    rw [hb]
    simp [Bot.recording]
  | refused _ hb =>
    rw [after_of_error hg]
    refine went _ ?_
    rw [hb]
    simp [Bot.recording]

theorem keeps_equip (item : Item) (destination : String) :
    Keeps (Backed Q) (Port.call (.equip item destination)) := fun _ =>
  backed_call (.equip item destination) (fun _ => rfl) (by rintro ⟨⟩)

theorem hold_ok {item : Item} {m' : Machine} (h : hold item m = .ok () m') :
    m.Wields (some item) m' := by
  refine .item h ?_
  have hc : Port.call (.equip item m.settings.equipDestination) m = .ok () m' := h
  rcases call_cases (.equip item m.settings.equipDestination) m with
    ⟨-, m₁, hm, hb⟩ | ⟨t, m₁, hm, -⟩
  · cases hc.symm.trans hm
    exact hb
  · cases hc.symm.trans hm

theorem backed_hold (item : Item) {f : Unit → Run Unit}
    (h : ∀ m₁, m.Wields (some item) m₁ → Backed Q m₁ ((f ()).after m₁)) :
    Backed Q m ((hold item >>= f).after m) :=
  rel_bind (law_hold_of (P := fun _ => Keeps (Backed Q)) item (keeps_equip item) m)
    fun _ _ hm => h _ (hold_ok hm)

theorem backed_digBlock {block : Block}
    (h : ∀ tool now, m.bot.bestTool block = .ok tool → m.Wields tool now →
      Q now.bot.calls.toList (.dig block)) :
    Backed Q m ((digBlock block).after m) := by
  refine rel_bind (SearchLaw.question (P := fun _ => Keeps (Backed Q)) (.bestTool block) m)
    fun tool m₁ hm => ?_
  change ask (·.bestTool block) m = .ok tool m₁ at hm
  obtain ⟨ht, rfl⟩ := ask_ok hm
  cases tool with
  | none => exact backed_call (.dig block) (fun _ => rfl) fun _ => h none m₁ ht .nothing
  | some tool =>
    exact backed_hold tool fun now hw =>
      backed_call (.dig block) (fun _ => rfl) fun _ => h (some tool) now ht hw

theorem backed_digNearest {kind : Option String}
    (h : ∀ block tool now, m.bot.DigSite m.settings.reach kind block →
      m.bot.bestTool block = .ok tool → m.Wields tool now → Q now.bot.calls.toList (.dig block)) :
    Backed Q m ((digNearest kind).after m) := by
  unfold digNearest
  refine rel_get_bind (rel_atSite (law_digSite (P := fun _ => Keeps (Backed Q)) _ kind)
    fun block m₁ hs => ?_)
  obtain ⟨hsite, rfl⟩ := digSite_ok hs
  rw [after_act]
  exact backed_digBlock fun tool now => h block tool now hsite

theorem backed_placeNamed {name : String} {given : Option Point}
    (h : ∀ spot now, m.bot.PlaceSite m.settings.reach name spot →
      m.bot.Target given spot.position → m.Wields (some spot.item) now →
      Q now.bot.calls.toList (.place spot.support Point.up)) :
    Backed Q m ((placeNamed name given).after m) := by
  unfold placeNamed
  refine rel_get_bind (rel_atSite (law_spot (P := fun _ => Keeps (Backed Q)) _ name given)
    fun spot m₁ hs => ?_)
  obtain ⟨hsite, htarget, rfl⟩ := spot_ok hs
  rw [after_act]
  exact backed_hold spot.item fun now hw =>
    backed_call (.place spot.support Point.up) (fun _ => rfl) fun _ => h spot now hsite htarget hw

/-- Whatever a command does, it makes no call that changes a block but one that it permits. -/
theorem backed_carryOut (c : Command) (m : Machine)
    (h : ∀ now call, c.Permits m now call → Q now.bot.calls.toList call) :
    Backed Q m ((carryOut c).after m) := by
  cases c with
  | say loc message =>
    exact (reads_argumentText m message).rel fun text _ =>
      law_sayText_of (P := fun _ => Keeps (Backed Q)) text
        (fun _ => backed_call (.say text) (fun _ => rfl) (by rintro ⟨⟩)) m
  | goto loc x y z =>
    exact (reads_point m "GOTO" x y z).rel fun p _ =>
      law_travelTo_of (P := fun _ => Keeps (Backed Q)) p (keeps_journey p) m
  | attack loc target =>
    exact (reads_argumentText m target).rel fun text _ =>
      law_attackNamed_of (P := fun _ => Keeps (Backed Q)) text
        (fun entity _ => backed_call (.attack entity) (fun _ => rfl) (by rintro ⟨⟩)) m
  | dig loc kind =>
    exact (reads_kind m kind).rel fun wanted hk => backed_digNearest fun _ _ now hs ht hw =>
      h now _ (.dig hk hs ht hw)
  | place loc item x y z =>
    refine (reads_argumentText m item).rel ?_
    rintro _ ⟨v, hv, rfl⟩
    have placed (given : Option Point) (hg : m.context.Gives given x y z) :
        Backed Q m ((placeNamed v.text given).after m) :=
      backed_placeNamed fun _ now hs hp hw => h now _ (.place hv hg hs hp hw)
    split
    · exact (reads_point m "PLACE" _ _ _).rel fun p hp => placed (some p) ⟨p, rfl, hp⟩
    · rename_i hnone
      refine placed none ?_
      unfold Context.Gives
      split
      · exact (hnone _ _ _ rfl rfl rfl).elim
      · rfl
  | equip loc item =>
    exact (reads_argumentText m item).rel fun text _ =>
      law_equipNamed_of (P := fun _ => Keeps (Backed Q)) text keeps_equip m
  | drop loc item count =>
    exact (reads_argumentText m item).rel fun text _ => (reads_dropCount m count).rel fun n _ =>
      law_dropNamed_of (P := fun _ => Keeps (Backed Q)) text n
        (fun type n _ => backed_call (.toss type n) (fun _ => rfl) (by rintro ⟨⟩)) m
  | wait loc seconds => exact law_wait (P := fun _ => Keeps (Backed Q)) seconds m
  | misfit tree => exact .of_bot rfl

end Run

/-- What is taken down of a command makes no call that changes a block but one that it permits. -/
theorem Deed.Real.backed {d : Deed} (h : d.Real) :
    Backed (fun before call => ∃ now, d.command.Permits d.before now call ∧
      now.bot.calls.toList = before) d.before d.after := by
  rw [← h.after_eq, Run.after_command]
  exact Run.backed_carryOut d.command d.before fun now _ hp => ⟨now, hp, rfl⟩

theorem Course.backed {m m' : Machine} {deeds : List Deed} (h : Course m deeds m') :
    Backed (fun before call => ∃ d ∈ deeds, ∃ now, d.command.Permits d.before now call ∧
      now.bot.calls.toList = before) m m' := by
  induction deeds generalizing m with
  | nil => exact Machine.Idles.backed h
  | cons d deeds ih =>
    obtain ⟨hi, hd, hrest⟩ := h
    refine hi.backed.trans (.trans (hd.backed.mono ?_) ((ih hrest).mono ?_))
    · rintro before call ⟨now, hp⟩
      exact ⟨d, List.mem_cons_self, now, hp⟩
    · rintro before call ⟨d', hd', now, hp⟩
      exact ⟨d', List.mem_cons_of_mem _ hd', now, hp⟩

/-- No run changes a block unless it may. Whatever the world holds, whatever the bot refuses and
whatever the settings are, behind each call to dig or to place that a run makes there is a command
that it carries out, and on the machine that this command began with all was there that it takes: to
dig, the block found where the nearest of the wanted kind is, of a kind that can be dug, and within
reach; to place, an item of the wanted name, and a free position within reach on top of the block
that is passed on. Just before the call, and after nothing else, the bot has taken into its hand the
item to place, or the best tool for the block if it has one. -/
theorem Machine.execute_permits (m : Machine) (p : Program) :
    (m.executeEscorted Deed.carryOut [] p).1 = m.execute p ∧
      ∀ before call rest, (m.execute p).2.bot.calls.toList = before ++ call :: rest →
        m.bot.calls.size ≤ before.length → call.ChangesBlock →
          ∃ d ∈ m.history p, d.Real ∧ d.before.settings = m.settings ∧ ∃ now,
            d.command.Permits d.before now call ∧ now.bot.calls.toList = before := by
  obtain ⟨he, m₀, m₁, hi, hc, hs⟩ := m.execute_history p
  refine ⟨he, fun before call rest hr hl hb => ?_⟩
  have hsame : (m.execute p).2.bot.calls = m₁.bot.calls := by
    obtain ⟨_, hs⟩ := hs.bot_eq
    rw [hs]
  obtain ⟨d, hd, now, hp, hn⟩ :=
    (hi.backed.trans hc.backed).backed before call rest (hsame ▸ hr) hl hb
  exact ⟨d, hd, hc.real d hd, (hc.settings d hd).trans hi.1, now, hp, hn⟩

/-- A bot that changes blocks in both ways. -/
example :
    let stone : Block := ⟨"stone", ⟨1, 63, 0⟩⟩
    let dirt : Block := ⟨"dirt", ⟨2, 63, 0⟩⟩
    let pick : Item := ⟨"pick", 1, 1⟩
    let torch : Item := ⟨"torch", 2, 5⟩
    let m : Machine := .fresh
      { blocks := [stone, dirt], items := [pick, torch], bestTools := [("stone", "pick")] } {} 0
    let p : Program := .ofStatements [.command ⟨1, 1⟩ (.dig ⟨1, 1⟩ none),
      .command ⟨2, 1⟩ (.place ⟨2, 1⟩ (.string ⟨2, 7⟩ "torch") none none none)]
    ((m.execute p).2.bot.calls.toList.filter (· ≠ .vitals)) =
      [.equip pick "hand", .dig stone, .equip torch "hand", .place dirt Point.up] := by
  decide +kernel

end AgentScript

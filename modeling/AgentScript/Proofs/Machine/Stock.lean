import AgentScript.Proofs.Bot.Inventory
import AgentScript.Proofs.Machine.History
import AgentScript.Proofs.Number.Order

/-! What becomes of the items of a bot in a run: what its drops say that they took is what is
missing. -/
namespace AgentScript

theorem Expr.Counts.one_le {context : Context} {count : Option Expr} {n : Int}
    (h : Expr.Counts context count n) : 1 ≤ n := by
  cases h with
  | one => exact Int.le_refl 1
  | floor _ hf hx => exact Number.one_le_floor hf hx

namespace Bot

theorem Spared.items_eq {b b' : Bot} (h : b.Spared b') : b'.items = b.items := by
  cases h <;> rfl

end Bot

/-- Of the commands that succeed only drops change the items. -/
theorem Command.Done.items_eq {context : Context} {b b' : Bot} {c : Command}
    (h : c.Done context b b') (hc : ∀ loc item count, c ≠ .drop loc item count) :
    b'.items = b.items := by
  cases h with
  | drop => exact (hc _ _ _ rfl).elim
  | _ => rfl

namespace Run

/-- A drop that succeeds asks the bot for items of the type of the first stack of that name. -/
theorem drop_ok {loc : Location} {item : Expr} {count : Option Expr} {m m' : Machine}
    {result : CommandResult} (h : command (.drop loc item count) m = .ok result m')
    (hs : result.success = true) :
    ∃ v n stack, item.eval m.context = .ok v ∧ Expr.Counts m.context count n ∧
      m.bot.findItem v.text = .ok (some stack) ∧
      m'.bot.items = (m.bot.discard stack.type (min n stack.count)).items ∧
      result.message = "Dropped " ++ toString (min n stack.count) ++ " " ++ v.text := by
  obtain ⟨r, hc, hr, hmessage⟩ := command_ok h hs
  obtain ⟨name, m₁, hname, h₁⟩ := exists_of_bind_ok hc
  obtain ⟨⟨v, hv, rfl⟩, rfl⟩ := (reads_argumentText m item).of_ok hname
  obtain ⟨n, m₂, hcount, h₂⟩ := exists_of_bind_ok h₁
  obtain ⟨hn, rfl⟩ := (reads_dropCount m₁ count).of_ok hcount
  obtain ⟨stack, m₃, hsite, h₃⟩ := atSite_ok h₂ hr
  obtain ⟨hf, rfl⟩ := carried_ok hsite
  obtain ⟨h₄, hm⟩ := act_ok h₃ hr
  refine ⟨v, n, stack, hv, hn, hf, ?_, hmessage.symm.trans hm⟩
  rcases call_cases (.toss stack.type (min n stack.count)) m₃ with ⟨-, m₄, hc, hb⟩ | ⟨t, m₄, hc, -⟩
  · cases hc.symm.trans h₄
    rw [hb]
    rfl
  · cases hc.symm.trans h₄

end Run

namespace Deed

/-- What a deed makes of the items. A drop that succeeds takes out what it says that it took. A drop
that does not, and every other command, leaves the items as they are. -/
inductive Accounted (d : Deed) : Prop
  | dropped {loc : Location} {item : Expr} {count : Option Expr} {result : CommandResult}
    {v : Value} {n k : Int} (hc : d.command = .drop loc item count) (hr : d.result = some result)
    (hs : result.success = true) (hv : item.eval d.before.context = .ok v)
    (hn : Expr.Counts d.before.context count n)
    (hd : Item.Dropped v.text n d.before.bot.items k d.after.bot.items)
    (hm : result.message = "Dropped " ++ toString k ++ " " ++ v.text)
  | kept (hc : ∀ loc item count result, d.command = .drop loc item count →
      d.result = some result → result.success = false)
    (hi : d.after.bot.items = d.before.bot.items)

/-- How many items of a name a deed says that it dropped. -/
inductive Amount (d : Deed) (name : String) : Int → Prop
  | dropped {loc : Location} {item : Expr} {count : Option Expr} {result : CommandResult}
    {v : Value} {k : Int} (hc : d.command = .drop loc item count) (hr : d.result = some result)
    (hs : result.success = true) (hv : item.eval d.before.context = .ok v) (hn : v.text = name)
    (hm : result.message = "Dropped " ++ toString k ++ " " ++ name) : Amount d name k
  | none (hc : ∀ loc item count result v, d.command = .drop loc item count →
      d.result = some result → result.success = true →
      item.eval d.before.context = .ok v → v.text ≠ name) : Amount d name 0

variable {d : Deed}

theorem Accounted.stocked (h : d.Accounted) (hs : Stocked d.before.bot.items) :
    Stocked d.after.bot.items := by
  cases h with
  | dropped _ _ _ _ _ hd => exact hd.stocked hs
  | kept _ hi => rwa [hi]

theorem Accounted.exists_amount (h : d.Accounted) (name : String) :
    ∃ k, d.Amount name k ∧
      Item.total name d.before.bot.items = Item.total name d.after.bot.items + k := by
  cases h with
  | @dropped loc item count result v n k hc hr hs hv hn hd hm =>
    by_cases hname : v.text = name
    · subst hname
      exact ⟨k, .dropped hc hr hs hv rfl hm, hd.total_eq⟩
    · refine ⟨0, .none fun loc' item' count' result' v' hc' _ _ hv' => ?_, ?_⟩
      · cases hc.symm.trans hc'
        cases hv.symm.trans hv'
        exact hname
      · rw [hd.total_other hname, Int.add_zero]
  | kept hc hi =>
    refine ⟨0, .none fun loc item count result v hc' hr hs _ => ?_, ?_⟩
    · rw [hc loc item count result hc' hr] at hs
      cases hs
    · rw [hi, Int.add_zero]

/-- What carrying out a command makes of the items of a bot that is well stocked. -/
theorem Real.accounted (h : d.Real) (hs : Stocked d.before.bot.items) : d.Accounted := by
  have htouch := Run.touches_command d.command d.before
  unfold Real at h
  cases hr : d.result with
  | none =>
    rw [hr] at h
    obtain ⟨halt, h⟩ := h
    rw [h] at htouch
    cases htouch with
    | broken hspared =>
      refine .kept (fun _ _ _ _ _ hr' => ?_) hspared.items_eq
      rw [hr] at hr'
      cases hr'
  | some result =>
    rw [hr] at h
    have hfailed (hf : result.success = false) :
        ∀ loc item count result', d.command = .drop loc item count →
          d.result = some result' → result'.success = false := by
      intro _ _ _ result' _ hr'
      cases hr.symm.trans hr'
      exact hf
    rw [h] at htouch
    cases htouch with
    | failed hf hspared => exact .kept (hfailed hf) hspared.items_eq
    | done hsuccess hdone =>
      by_cases hc : ∃ loc item count, d.command = .drop loc item count
      · obtain ⟨loc, item, count, hc⟩ := hc
        rw [hc] at h
        obtain ⟨v, n, stack, hv, hn, hf, hi, hm⟩ := Run.drop_ok h hsuccess
        have hd := Bot.dropped_of_findItem hs hf hn.one_le
        rw [← hi] at hd
        exact .dropped hc hr hsuccess hv hn hd hm
      · exact .kept (fun loc item count _ hc' _ => (hc ⟨loc, item, count, hc'⟩).elim)
          (hdone.items_eq fun loc item count hc' => hc ⟨loc, item, count, hc'⟩)

end Deed

namespace Course

variable {m m' : Machine} {deeds : List Deed}

theorem stocked (h : Course m deeds m') (hs : Stocked m.bot.items) :
    (∀ d ∈ deeds, Stocked d.before.bot.items) ∧ Stocked m'.bot.items :=
  h.keeps (J := fun m₁ => Stocked m₁.bot.items) (fun _ _ hi hs => by rwa [hi.spared.items_eq])
    (fun _ hd hs => (hd.accounted hs).stocked hs) hs

theorem exists_amounts (h : Course m deeds m') (hs : Stocked m.bot.items) (name : String) :
    ∃ amounts, List.Forall₂ (fun d k => d.Amount name k) deeds amounts ∧
      Item.total name m.bot.items = Item.total name m'.bot.items + amounts.sum := by
  induction deeds generalizing m with
  | nil =>
    have hi : m'.bot.items = m.bot.items := (Machine.Idles.spared h).items_eq
    exact ⟨[], .nil, by rw [hi]; simp⟩
  | cons d deeds ih =>
    obtain ⟨hi, hd, hrest⟩ := h
    have hsame := hi.spared.items_eq
    have hbefore : Stocked d.before.bot.items := by rwa [hsame]
    have haccounted := hd.accounted hbefore
    obtain ⟨k, hk, hone⟩ := haccounted.exists_amount name
    obtain ⟨amounts, hamounts, hothers⟩ := ih hrest (haccounted.stocked hbefore)
    refine ⟨k :: amounts, .cons hk hamounts, ?_⟩
    rw [← hsame, hone, hothers, List.sum_cons]
    omega

end Course

namespace Machine

/-- A run drops what it says that it drops, if the bot is well stocked to begin with: something in
every stack, and one name for all items of a type. A drop that succeeds takes from the first stack
of the name as many items as it was asked for, or as many as there are, and at least one; the stack
goes when it is empty, and nothing else changes. A drop that fails changes nothing, and neither does
any other command. So the bot stays well stocked, and of every name just as many items are missing
in the end as the results of the drops say. -/
theorem execute_conserves (m : Machine) (p : Program) (h : Stocked m.bot.items) :
    (m.executeEscorted Deed.carryOut [] p).1 = m.execute p ∧
      (∀ d ∈ m.history p, d.Real ∧ Stocked d.before.bot.items ∧ Stocked d.after.bot.items ∧
        d.Accounted) ∧
      Stocked (m.execute p).2.bot.items ∧
      ∀ name, ∃ amounts, List.Forall₂ (fun d k => d.Amount name k) (m.history p) amounts ∧
        Item.total name m.bot.items - Item.total name (m.execute p).2.bot.items = amounts.sum := by
  obtain ⟨he, m₀, m₁, hi, hc, hset⟩ := m.execute_history p
  have hsame := hi.spared.items_eq
  have hlast : (m.execute p).2.bot.items = m₁.bot.items := by
    obtain ⟨_, hb⟩ := hset.bot_eq
    rw [hb]
  have hstart : Stocked m₀.bot.items := by rwa [hsame]
  obtain ⟨hbefore, hend⟩ := hc.stocked hstart
  refine ⟨he, fun d hd => ?_, by rwa [hlast], fun name => ?_⟩
  · have haccounted := (hc.real d hd).accounted (hbefore d hd)
    exact ⟨hc.real d hd, hbefore d hd, haccounted.stocked (hbefore d hd), haccounted⟩
  · obtain ⟨amounts, hamounts, htotal⟩ := hc.exists_amounts hstart name
    refine ⟨amounts, hamounts, ?_⟩
    rw [hlast, ← hsame, htotal]
    omega

/-- Two of three stones are dropped. -/
theorem execute_conserves_stones :
    let m : Machine := .fresh { items := [⟨"stone", 1, 3⟩, ⟨"dirt", 2, 1⟩] } {} 0
    let p : Program := .ofStatements
      [.command ⟨1, 1⟩ (.drop ⟨1, 1⟩ (.string ⟨1, 6⟩ "stone") (some (.number ⟨1, 14⟩ 2)))]
    Stocked m.bot.items ∧ (m.execute p).2.bot.items = [⟨"stone", 1, 1⟩, ⟨"dirt", 2, 1⟩] ∧
      (m.executeEscorted Deed.carryOut [] p).1 = m.execute p ∧
      (∀ d ∈ m.history p, d.Real ∧ Stocked d.before.bot.items ∧ Stocked d.after.bot.items ∧
        d.Accounted) ∧
      Stocked (m.execute p).2.bot.items ∧
      ∀ name, ∃ amounts, List.Forall₂ (fun d k => d.Amount name k) (m.history p) amounts ∧
        Item.total name m.bot.items - Item.total name (m.execute p).2.bot.items = amounts.sum := by
  intro m p
  have h : Stocked m.bot.items := ⟨by decide, by decide⟩
  exact ⟨h, by decide +kernel, m.execute_conserves p h⟩

end Machine

end AgentScript

import AgentScript.Proofs.Machine.Calm
import AgentScript.Proofs.Machine.History
import AgentScript.Proofs.Number.Addition

/-! Journeys: the bot arrives in time, or it does not move at all, then or later. -/
namespace AgentScript

open RunOn (after)

def Command.deed (c : Command) (m : Machine) : Deed :=
  match Run.command c m with
  | .ok result m' => ⟨c, m, some result, m'⟩
  | .error _ m' => ⟨c, m, none, m'⟩

namespace Deed

def Succeeds (d : Deed) : Prop := ∃ result, d.result = some result ∧ result.success = true

def TimesOut (d : Deed) : Prop :=
  ∃ result, d.result = some result ∧ result.success = false ∧
    result.message = "Goto failed: timed out after " ++
      Number.scriptText d.before.settings.gotoTimeout ++ " seconds"

def Arrives (d : Deed) : Prop := d.Succeeds ∧ ∃ loc x y z, d.command = .goto loc x y z

/-- A journey to a point that succeeds. -/
def MovesTo (d : Deed) (p : Point) : Prop :=
  d.Succeeds ∧ ∃ loc x y z, d.command = .goto loc x y z ∧ Expr.Locate d.before.context x y z p

/-- The way of a bot from one position to another: a journey that succeeds moves it to the point of
that journey, and nothing else moves it. -/
def Route : Point → List Deed → Point → Prop
  | p, [], q => q = p
  | p, d :: deeds, q => d.before.bot.position = p ∧
      ∃ r, (d.MovesTo r ∨ ¬ d.Arrives ∧ r = p) ∧ d.after.bot.position = r ∧ Route r deeds q

end Deed

section Deeds

variable {c : Command} {m m' : Machine}

theorem deed_of_ok {result : CommandResult} (h : Run.command c m = .ok result m') :
    c.deed m = ⟨c, m, some result, m'⟩ := by
  rw [Command.deed, h]

theorem Command.deed_real (c : Command) (m : Machine) : (c.deed m).Real := by
  unfold deed
  cases h : Run.command c m with
  | ok result m' => exact h
  | error halt m' => exact ⟨halt, h⟩

@[simp] theorem Command.deed_command (c : Command) (m : Machine) : (c.deed m).command = c := by
  unfold deed
  split <;> rfl

@[simp] theorem Command.deed_before (c : Command) (m : Machine) : (c.deed m).before = m := by
  unfold deed
  split <;> rfl

theorem Deed.Real.eq_deed {d : Deed} (h : d.Real) : d = d.command.deed d.before := by
  obtain ⟨c, m, result, m'⟩ := d
  cases result with
  | some result => rw [Command.deed, show Run.command c m = .ok result m' from h]
  | none =>
    obtain ⟨halt, h⟩ := h
    rw [Command.deed, show Run.command c m = .error halt m' from h]

/-- Requests to stop change nothing of what a command does. -/
theorem deed_of_calm (h : m'.calm = m.calm) : (c.deed m').result = (c.deed m).result ∧
    (c.deed m').after.calm = (c.deed m).after.calm := by
  have hc : Run.calmed (Run.command c m') = Run.calmed (Run.command c m) := by
    rw [Run.command_steady c m', Run.command_steady c m, h]
  unfold Command.deed
  cases h₁ : Run.command c m' with
  | ok result m₁ =>
    cases h₂ : Run.command c m with
    | ok result' m₂ =>
      rw [h₁, h₂] at hc
      obtain ⟨rfl, hm⟩ := EStateM.Result.ok.inj hc
      exact ⟨rfl, hm⟩
    | error halt m₂ =>
      rw [h₁, h₂] at hc
      cases hc
  | error halt m₁ =>
    cases h₂ : Run.command c m with
    | ok result' m₂ =>
      rw [h₁, h₂] at hc
      cases hc
    | error halt' m₂ =>
      rw [h₁, h₂] at hc
      exact ⟨rfl, (EStateM.Result.error.inj hc).2⟩

end Deeds

section Positions

theorem Bot.Spared.position_eq {b b' : Bot} (h : b.Spared b') : b'.position = b.position := by
  cases h <;> rfl

/-- A deed moves the bot to the target of a journey that succeeds, or does not move it. -/
theorem Deed.Real.moves {d : Deed} (h : d.Real) : d.MovesTo d.after.bot.position ∨
    ¬ d.Arrives ∧ d.after.bot.position = d.before.bot.position := by
  have htouch := Run.touches_command d.command d.before
  unfold Real at h
  cases hr : d.result with
  | none =>
    rw [hr] at h
    obtain ⟨halt, h⟩ := h
    rw [h] at htouch
    cases htouch with
    | broken hspared =>
      refine .inr ⟨?_, hspared.position_eq⟩
      rintro ⟨⟨result, hr', -⟩, -⟩
      cases hr.symm.trans hr'
  | some result =>
    rw [hr] at h
    rw [h] at htouch
    cases htouch with
    | failed hf hspared =>
      refine .inr ⟨?_, hspared.position_eq⟩
      rintro ⟨⟨result', hr', hs⟩, -⟩
      cases hr.symm.trans hr'
      cases hf.symm.trans hs
    | done hs hdone =>
      generalize hc : d.command = c at hdone
      generalize hb : d.after.bot = b at hdone
      cases hdone with
      | goto hx hy hz => exact .inl ⟨⟨result, hr, hs⟩, _, _, _, _, hc, hx, hy, hz⟩
      | _ =>
        refine .inr ⟨?_, rfl⟩
        rintro ⟨-, _, _, _, _, hc'⟩
        cases hc.symm.trans hc'

theorem Course.route {m m' : Machine} {deeds : List Deed} (h : Course m deeds m') :
    Deed.Route m.bot.position deeds m'.bot.position := by
  induction deeds generalizing m with
  | nil => exact (Machine.Idles.spared h).position_eq
  | cons d deeds ih =>
    obtain ⟨hi, hd, hrest⟩ := h
    have hb := hi.spared.position_eq
    refine ⟨hb, d.after.bot.position, ?_, rfl, ih hrest⟩
    rcases hd.moves with hmoves | ⟨hnot, hstays⟩
    · exact .inl hmoves
    · exact .inr ⟨hnot, hstays.trans hb⟩

theorem Deed.Route.append {deeds more : List Deed} {p q r : Point} (h : Route p deeds q)
    (h' : Route q more r) : Route p (deeds ++ more) r := by
  induction deeds generalizing p with
  | nil =>
    cases h
    exact h'
  | cons d deeds ih =>
    obtain ⟨hb, p', hm, ha, hrest⟩ := h
    exact ⟨hb, p', hm, ha, ih hrest⟩

end Positions

namespace Machine

def executeAll (m : Machine) : List Program → Machine
  | [] => m
  | p :: ps => (m.execute p).2.executeAll ps

def annals (m : Machine) : List Program → List Deed
  | [] => []
  | p :: ps => m.history p ++ (m.execute p).2.annals ps

theorem annals_route (m : Machine) (ps : List Program) :
    Deed.Route m.bot.position (m.annals ps) (m.executeAll ps).bot.position := by
  induction ps generalizing m with
  | nil => exact rfl
  | cons p ps ih =>
    obtain ⟨-, m₀, m₁, hi, hc, hs⟩ := m.execute_history p
    obtain ⟨_, hb⟩ := hs.bot_eq
    have hend : (m.execute p).2.bot.position = m₁.bot.position := by rw [hb]
    have hroute := hc.route
    rw [hi.spared.position_eq, ← hend] at hroute
    exact hroute.append (ih _)

theorem annals_deed (m : Machine) (ps : List Program) :
    ∀ d ∈ m.annals ps, d = d.command.deed d.before := by
  induction ps generalizing m with
  | nil => exact fun _ hd => (nomatch hd)
  | cons p ps ih =>
    obtain ⟨-, m₀, m₁, -, hc, -⟩ := m.execute_history p
    intro d hd
    rcases List.mem_append.mp hd with hd | hd
    · exact (hc.real d hd).eq_deed
    · exact ih _ d hd

end Machine

section Time

variable {now delay timeout : Float}

theorem Run.inTime_of_beq_zero (h : (delay == 0) = true) : inTime now delay timeout = true := by
  have hle : delay ≤ 0 := by
    rw [Number.le_iff, Number.beq_iff.mp h]
    rfl
  simp [inTime, hle]

theorem Run.inTime_iff_of_pos (hf : delay.isFinite = true) (h : 0 < delay) :
    inTime now delay timeout = true ↔ now + delay < now + timeout := by
  unfold inTime
  rw [Number.isNaN_of_isFinite hf]
  simp [Number.not_le_of_lt h]

/-- Some seconds later it is later by so many seconds, as far as numbers go. -/
theorem Machine.later_eq {m : Machine} {seconds : Float} (hf : seconds.isFinite = true)
    (h : 0 < seconds) : m.later seconds = m.clock + seconds := by
  unfold later
  rcases Number.lt_add_or_eq (x := m.clock) hf h with hlt | heq
  · exact if_pos hlt
  · rw [heq, ite_self]

/-- A moment is not after its own deadline. -/
theorem not_add_lt (hf : timeout.isFinite = true) (h : 0 < timeout) : ¬ now + timeout < now := by
  rcases Number.lt_add_or_eq (x := now) hf h with hlt | heq
  · exact Number.lt_asymm hlt
  · rw [heq]
    exact Number.lt_irrefl now

end Time

namespace Run

variable {m : Machine} {p : Point} {x y z : Expr}

theorem coordinate_ok {command : String} {e : Expr} {a : Float}
    (h : e.eval m.context = .ok (.number a)) : coordinate command e m = .ok a m :=
  bind_of_ok (evaluate_ok h) _

theorem point_ok {command : String} (h : Expr.Locate m.context x y z p) :
    point command x y z m = .ok p m := by
  refine (bind_of_ok (coordinate_ok h.x) _).trans ?_
  refine (bind_of_ok (coordinate_ok h.y) _).trans ?_
  exact bind_of_ok (coordinate_ok h.z) _

/-- A command to go, once its coordinates have come to a point. -/
theorem goto_of_locate (loc : Location) (h : Expr.Locate m.context x y z p) :
    carryOut (.goto loc x y z) m = travelTo p m := bind_of_ok (point_ok h) _

theorem after_travelTo (p : Point) (m : Machine) :
    (travelTo p).after m = (Port.call (.goto p) : Run Bool).after m := by
  unfold travelTo
  rw [after_get_bind]
  refine (after_bind_of_rest (fun r m' => ?_) m).trans (after_attempt _ m)
  split <;> rfl

end Run

section Gotos

variable {m : Machine} {p : Point} {loc : Location} {x y z : Expr}

theorem deed_after (c : Command) (m : Machine) : (c.deed m).after = (Run.command c).after m := by
  cases h : Run.command c m with
  | ok result m' => rw [deed_of_ok h, Run.after_of_ok h]
  | error halt m' => rw [Command.deed, h, Run.after_of_error h]

/-- What a journey leaves is what the bot leaves when it is asked to go. -/
theorem deed_after_goto (hp : Expr.Locate m.context x y z p) :
    ((Command.goto loc x y z).deed m).after = (Port.call (.goto p) : Run Bool).after m := by
  rw [deed_after, Run.after_command, ← Run.after_travelTo]
  unfold after
  rw [Run.goto_of_locate loc hp]

/-- A journey whose result is known, but for the time that it took. -/
theorem deed_of_travelTo {result : CommandResult} (loc : Location)
    (hp : Expr.Locate m.context x y z p) (h : Run.travelTo p m = .ok result m') :
    ∃ time, (Command.goto loc x y z).deed m =
      ⟨.goto loc x y z, m, some { result with duration := time }, m'⟩ := by
  have hc : Run.command (.goto loc x y z) m =
      (Run.attempt (Run.carryOut (.goto loc x y z)) >>= _) m := rfl
  rw [← Run.goto_of_locate loc hp] at h
  exact ⟨_, deed_of_ok (hc.trans (Run.bind_of_ok (Run.attempt_of_ok h) _))⟩

/-- How a journey to a point ends: before it begins as there is no time for it, in time, when time
is up, or at once as the bot refuses. -/
inductive Deed.Ends (d : Deed) : Prop
  | unbegun (hz : d.before.settings.gotoTimeout ≤ 0) (hs : d.TimesOut)
    (hc : d.after.clock = d.before.clock)
  | arrived (hr : d.before.bot.refusal? .goto = none)
    (ht : Run.inTime d.before.clock d.before.bot.gotoDelay d.before.settings.gotoTimeout = true)
    (hs : d.Succeeds) (hc : d.after.clock =
      if 0 < d.before.bot.gotoDelay then d.before.later d.before.bot.gotoDelay else d.before.clock)
  | late (hr : d.before.bot.refusal? .goto = none)
    (ht : Run.inTime d.before.clock d.before.bot.gotoDelay d.before.settings.gotoTimeout = false)
    (hs : d.TimesOut) (hc : d.after.clock = d.before.later d.before.settings.gotoTimeout)
  | refused {r : Refusal} (hr : d.before.bot.refusal? .goto = some r)
    (hc : d.after.clock = d.before.clock)

theorem Deed.Ends.arrives {d : Deed} (h : d.Ends) (h0 : 0 < d.before.settings.gotoTimeout)
    (hr : d.before.bot.refusal? .goto = none)
    (ht : Run.inTime d.before.clock d.before.bot.gotoDelay d.before.settings.gotoTimeout = true) :
    d.Succeeds ∧ d.after.clock = if 0 < d.before.bot.gotoDelay then
      d.before.later d.before.bot.gotoDelay else d.before.clock := by
  cases h with
  | unbegun hz => exact absurd hz (Number.not_le_of_lt h0)
  | arrived _ _ hs hc => exact ⟨hs, hc⟩
  | late _ hl => cases ht.symm.trans hl
  | refused hr' => cases hr.symm.trans hr'

theorem Deed.Ends.timesOut {d : Deed} (h : d.Ends) (h0 : 0 < d.before.settings.gotoTimeout)
    (hr : d.before.bot.refusal? .goto = none)
    (ht : Run.inTime d.before.clock d.before.bot.gotoDelay d.before.settings.gotoTimeout = false) :
    d.TimesOut ∧ d.after.clock = d.before.later d.before.settings.gotoTimeout := by
  cases h with
  | unbegun hz => exact absurd hz (Number.not_le_of_lt h0)
  | arrived _ hl => cases ht.symm.trans hl
  | late _ _ hs hc => exact ⟨hs, hc⟩
  | refused hr' => cases hr.symm.trans hr'

theorem deed_ends (loc : Location) (hp : Expr.Locate m.context x y z p) :
    ((Command.goto loc x y z).deed m).Ends := by
  have hj := Run.journey_cases p m
  have hm : Run.travelTo p m = (Run.attempt (Port.call (.goto p)) >>= _) m := rfl
  cases h : (Port.call (.goto p) : Run Bool) m with
  | ok arrived m' =>
    rw [h] at hj
    have ht := hm.trans (Run.bind_of_ok (Run.attempt_of_ok h) _)
    cases hj with
    | unbegun hz _ hc =>
      obtain ⟨time, hd⟩ := deed_of_travelTo loc hp ht
      rw [hd]
      exact .unbegun hz ⟨_, rfl, rfl, rfl⟩ hc
    | arrived hr hin _ hc =>
      obtain ⟨time, hd⟩ := deed_of_travelTo loc hp ht
      rw [hd]
      exact .arrived hr hin ⟨_, rfl, rfl⟩ hc
    | late hr hin _ hc =>
      obtain ⟨time, hd⟩ := deed_of_travelTo loc hp ht
      rw [hd]
      exact .late hr hin ⟨_, rfl, rfl, rfl⟩ hc
  | error halt m' =>
    rw [h] at hj
    cases hj with
    | @refused r _ hr _ hc =>
      have ha : ((Command.goto loc x y z).deed m).after = m' :=
        (deed_after_goto hp).trans (Run.after_of_error h)
      refine .refused (r := r) ?_ ?_
      · rw [Command.deed_before, hr]
      · rw [Command.deed_before, ha, hc]

/-- No journey lasts longer than it may. -/
theorem deed_clock (hd : m.bot.gotoDelay.isFinite = true)
    (ht : m.settings.gotoTimeout.isFinite = true) (h0 : 0 < m.settings.gotoTimeout) :
    ¬ m.clock + m.settings.gotoTimeout < ((Command.goto loc x y z).deed m).after.clock := by
  rcases Run.reads_point m "GOTO" x y z with ⟨hp, hv⟩ | ⟨hp⟩
  · have hends := deed_ends loc hv
    generalize hdeed : (Command.goto loc x y z).deed m = d at hends
    have hm : d.before = m := by rw [← hdeed, Command.deed_before]
    cases hends with
    | unbegun hz =>
      rw [hm] at hz
      exact absurd hz (Number.not_le_of_lt h0)
    | arrived hr hin _ hc =>
      rw [hm] at hc hin
      rw [hc]
      split
      · next hpos =>
        rw [Machine.later_eq hd hpos]
        exact Number.lt_asymm ((Run.inTime_iff_of_pos hd hpos).mp hin)
      · exact not_add_lt ht h0
    | late _ _ _ hc =>
      rw [hc, hm, Machine.later_eq ht h0]
      exact Number.lt_irrefl _
    | refused _ hc =>
      rw [hc, hm]
      exact not_add_lt ht h0
  · have hstays : (Run.carryOut (.goto loc x y z)).after m = m :=
      Run.after_of_error (Run.bind_of_error hp _)
    rw [deed_after, Run.after_command, hstays]
    exact not_add_lt ht h0

/-- A journey moves the bot to its target exactly if it succeeds. -/
theorem deed_goto_moves (loc : Location) (x y z : Expr) (m : Machine) :
    ((Command.goto loc x y z).deed m).Succeeds ∧
      Expr.Locate m.context x y z ((Command.goto loc x y z).deed m).after.bot.position ∨
    ¬ ((Command.goto loc x y z).deed m).Succeeds ∧
      ((Command.goto loc x y z).deed m).after.bot.position = m.bot.position := by
  have hc := Command.deed_command (.goto loc x y z) m
  have hb := Command.deed_before (.goto loc x y z) m
  rcases (Command.deed_real (.goto loc x y z) m).moves with
    ⟨hs, _, _, _, _, hc', hp⟩ | ⟨hnot, hstays⟩
  · cases hc.symm.trans hc'
    rw [hb] at hp
    exact .inl ⟨hs, hp⟩
  · rw [hb] at hstays
    exact .inr ⟨fun hs => hnot ⟨hs, _, _, _, _, hc⟩, hstays⟩

/-- A journey that the bot does not refuse succeeds at once if it takes no time, succeeds when it is
over if that is before time is up, and times out if time is up before. -/
theorem deed_goto_timing (hd : m.bot.gotoDelay.isFinite = true) (hd0 : 0 ≤ m.bot.gotoDelay)
    (ht : m.settings.gotoTimeout.isFinite = true) (ht0 : 0 < m.settings.gotoTimeout)
    (hp : Expr.Locate m.context x y z p) (hr : m.bot.refusal? .goto = none) :
    ((m.bot.gotoDelay == 0) = true → ((Command.goto loc x y z).deed m).Succeeds ∧
      ((Command.goto loc x y z).deed m).after.clock = m.clock) ∧
    (m.clock + m.bot.gotoDelay < m.clock + m.settings.gotoTimeout →
      ((Command.goto loc x y z).deed m).Succeeds ∧ (0 < m.bot.gotoDelay →
        ((Command.goto loc x y z).deed m).after.clock = m.clock + m.bot.gotoDelay)) ∧
    (m.clock + m.settings.gotoTimeout < m.clock + m.bot.gotoDelay →
      ((Command.goto loc x y z).deed m).TimesOut ∧
        ((Command.goto loc x y z).deed m).after.clock = m.clock + m.settings.gotoTimeout) := by
  have hends := deed_ends loc hp
  have hm := Command.deed_before (.goto loc x y z) m
  generalize (Command.goto loc x y z).deed m = d at hends hm ⊢
  subst hm
  refine ⟨fun h0 => ?_, fun hlt => ?_, fun hlt => ?_⟩
  · obtain ⟨hs, hc⟩ := hends.arrives ht0 hr (Run.inTime_of_beq_zero h0)
    exact ⟨hs, hc.trans (if_neg (Number.not_lt_of_beq h0))⟩
  · rcases Number.lt_or_beq_of_le hd0 with hpos | h0
    · obtain ⟨hs, hc⟩ := hends.arrives ht0 hr ((Run.inTime_iff_of_pos hd hpos).mpr hlt)
      exact ⟨hs, fun _ => hc.trans ((if_pos hpos).trans (Machine.later_eq hd hpos))⟩
    · have h0 := Number.beq_symm h0
      exact ⟨(hends.arrives ht0 hr (Run.inTime_of_beq_zero h0)).1,
        fun hpos => absurd hpos (Number.not_lt_of_beq h0)⟩
  · -- A journey that takes no time would not be late.
    have hpos : 0 < d.before.bot.gotoDelay := by
      rcases Number.lt_or_beq_of_le hd0 with hpos | h0
      · exact hpos
      · exact absurd hlt (Number.not_add_lt_add_zero ht ht0 (Number.beq_symm h0))
    have hlate : Run.inTime d.before.clock d.before.bot.gotoDelay
        d.before.settings.gotoTimeout = false :=
      Bool.eq_false_iff.mpr fun hin =>
        Number.lt_asymm hlt ((Run.inTime_iff_of_pos hd hpos).mp hin)
    obtain ⟨hs, hc⟩ := hends.timesOut ht0 hr hlate
    exact ⟨hs, hc.trans (Machine.later_eq ht ht0)⟩

/-- A journey is all or nothing and is over by its deadline. Requests to stop do not change how it
ends, and a journey that was broken off moves the bot neither later in its run nor in a run after
it. -/
theorem goto_all_or_nothing (m : Machine) (loc : Location) (x y z : Expr)
    (hd : m.bot.gotoDelay.isFinite = true) (hd0 : 0 ≤ m.bot.gotoDelay)
    (ht : m.settings.gotoTimeout.isFinite = true) (ht0 : 0 < m.settings.gotoTimeout) :
    let d := (Command.goto loc x y z).deed m
    let delay := m.bot.gotoDelay
    let timeout := m.settings.gotoTimeout
    (d.Succeeds ∧ Expr.Locate m.context x y z d.after.bot.position ∨
      ¬ d.Succeeds ∧ d.after.bot.position = m.bot.position) ∧
    ¬ m.clock + timeout < d.after.clock ∧
    (∀ p, Expr.Locate m.context x y z p → m.bot.refusal? .goto = none →
      ((delay == 0) = true → d.Succeeds ∧ d.after.clock = m.clock) ∧
      (m.clock + delay < m.clock + timeout →
        d.Succeeds ∧ (0 < delay → d.after.clock = m.clock + delay)) ∧
      (m.clock + timeout < m.clock + delay → d.TimesOut ∧ d.after.clock = m.clock + timeout)) ∧
    (∀ m' : Machine, m'.calm = m.calm → ((Command.goto loc x y z).deed m').result = d.result ∧
      ((Command.goto loc x y z).deed m').after.calm = d.after.calm) ∧
    ∀ (start : Machine) (ps : List Program),
      (∀ p, (start.executeEscorted Deed.carryOut [] p).1 = start.execute p) ∧
      (∀ e ∈ start.annals ps, e = e.command.deed e.before) ∧
      Deed.Route start.bot.position (start.annals ps) (start.executeAll ps).bot.position := by
  refine ⟨deed_goto_moves loc x y z m, deed_clock hd ht ht0, ?_, ?_, ?_⟩
  · intro p hp hr
    exact deed_goto_timing hd hd0 ht ht0 hp hr
  · intro m' hcalm
    exact deed_of_calm hcalm
  · intro start ps
    exact ⟨fun p => (start.execute_history p).1, start.annals_deed ps, start.annals_route ps⟩

/-- A journey of two seconds times out after one. -/
theorem goto_all_or_nothing_late :
    let m : Machine := .fresh { gotoDelay := 2 } { gotoTimeout := 1 } 0
    let d := (Command.goto ⟨1, 1⟩ (.number ⟨1, 6⟩ 1) (.number ⟨1, 8⟩ 2) (.number ⟨1, 10⟩ 3)).deed m
    d.TimesOut ∧ d.after.clock = 0 + 1 ∧ d.after.bot.position = ⟨0, 64, 0⟩ := by
  intro m d
  obtain ⟨hmoves, -, htimes, -⟩ := goto_all_or_nothing m ⟨1, 1⟩ (.number ⟨1, 6⟩ 1)
    (.number ⟨1, 8⟩ 2) (.number ⟨1, 10⟩ 3) (by decide +kernel) (by decide +kernel)
    (by decide +kernel) (by decide +kernel)
  obtain ⟨hlate, hclock⟩ := (htimes ⟨1, 2, 3⟩ ⟨rfl, rfl, rfl⟩ rfl).2.2 (by decide +kernel)
  refine ⟨hlate, hclock, ?_⟩
  rcases hmoves with ⟨⟨result, hr, hs⟩, -⟩ | ⟨-, hstays⟩
  · obtain ⟨result', hr', hf, -⟩ := hlate
    cases hr.symm.trans hr'
    cases hf.symm.trans hs
  · exact hstays

end Gotos

end AgentScript

import AgentScript.CommandLine.Run
import AgentScript.Proofs.Machine.Journey
import AgentScript.Proofs.Machine.Permit
import AgentScript.Proofs.Number.Rank

/-! The limits that settings set: which of them are accepted, and what they keep a run from. -/
namespace AgentScript

namespace Settings

/-- What is accepted as a limit: what is more than zero, and not-a-number, which no comparison
refuses. -/
def Admits (x : Float) : Prop := 0 < x ∨ x.isNaN = true

theorem positive_ok {key : String} {x : Float} : positive key x = .ok () ↔ Admits x := by
  rw [Admits, ← Number.not_le_zero_iff]
  unfold positive
  split
  · next h => exact iff_of_false (fun hp => nomatch hp) (not_not_intro h)
  · next h => exact iff_of_true rfl h

/-- Settings that come from an object set limits that are accepted. -/
theorem admits_of_json {data : Json} {s : Settings} (h : ofJson data = .ok s) :
    Admits s.gotoTimeout ∧ Admits s.reach := by
  obtain ⟨fields, rfl⟩ : ∃ fields, data = .obj fields := by
    cases data with
    | obj fields => exact ⟨fields, rfl⟩
    | _ => cases h
  obtain ⟨gotoTimeout, -, h⟩ := bind_eq_ok h
  obtain ⟨reach, -, h⟩ := bind_eq_ok h
  obtain ⟨⟨⟩, ht, h⟩ := bind_eq_ok h
  obtain ⟨⟨⟩, hr, h⟩ := bind_eq_ok h
  cases h
  exact ⟨positive_ok.mp ht, positive_ok.mp hr⟩

def toJson (s : Settings) : Json :=
  .obj [("goto_timeout", .real s.gotoTimeout), ("max_interaction_distance", .real s.reach),
    ("equip_destination", .str s.equipDestination), ("bot_name", .str s.botName),
    ("version", .str s.version)]

theorem ofJson_toJson {s : Settings} (ht : Admits s.gotoTimeout) (hr : Admits s.reach) :
    ofJson s.toJson = .ok s := by
  change (positive "goto_timeout" s.gotoTimeout >>= fun _ =>
    positive "max_interaction_distance" s.reach >>= fun _ => Except.ok s) = .ok s
  rw [positive_ok.mpr ht, positive_ok.mpr hr]
  rfl

/-- Settings from a text are the defaults, or those of an object in it. -/
theorem ofText_ok {format : Format} {path : String} {text : List Char} {s : Settings}
    (h : ofText format path text = .ok s) : s = {} ∨ ∃ fields, ofJson (.obj fields) = .ok s := by
  obtain ⟨data, -, h⟩ := bind_eq_ok h
  dsimp only at h
  split at h
  · cases h
    exact .inl rfl
  · split at h
    · split at h
      · exact .inr ⟨_, h⟩
      · cases h
    · cases h

/-- Settings that were accepted: those of an object, or those of a file in some format. -/
def Given (s : Settings) : Prop :=
  (∃ data, ofJson data = .ok s) ∨ ∃ format path text, ofFileIn format path text = .ok s

theorem given_iff {s : Settings} : s.Given ↔ Admits s.gotoTimeout ∧ Admits s.reach := by
  constructor
  · rintro (⟨data, h⟩ | ⟨format, path, text, h⟩)
    · exact admits_of_json h
    · cases text with
      | none => cases h
      | some text =>
        rcases ofText_ok h with rfl | ⟨fields, h⟩
        · exact ⟨.inl (by decide), .inl (by decide)⟩
        · exact admits_of_json h
  · rintro ⟨ht, hr⟩
    exact .inl ⟨s.toJson, ofJson_toJson ht hr⟩

end Settings

/-- Where a call changes a block, as the bot that it is made of sees the world: where the block to
dig is, or on top of the block that is passed on. -/
inductive Call.ChangesAt (b : Bot) : Call → Point → Prop
  | dig (block : Block) : ChangesAt b (.dig block) block.position
  | place {reference : Block} {p : Point}
    (h : b.lookAt (p.shift Point.down) ⟨Block.air, p.shift Point.down⟩ = .ok (some reference)) :
    ChangesAt b (.place reference Point.up) p

/-- What a command may change is where it is within reach. -/
theorem Command.Permits.within {m now : Machine} {c : Command} {call : Call}
    (h : c.Permits m now call) :
    ∃ p, call.ChangesAt m.bot p ∧ m.bot.Within m.settings.reach p := by
  cases h with
  | dig _ hs => exact ⟨_, .dig _, hs.near⟩
  | place _ _ hs => exact ⟨_, .place hs.support, hs.near⟩

namespace Bot

variable {b : Bot} {reach : Float} {p : Point}

/-- A limit that is a number keeps the bot within it, wherever there is a distance to compare. -/
theorem Within.le (h : b.Within reach p) (hr : reach.isNaN = false) :
    ∃ d, b.position.distance p = .ok d ∧ (d ≤ reach ∨ d.isNaN = true) := by
  obtain ⟨d, hd, hnot⟩ := h
  refine ⟨d, hd, ?_⟩
  by_cases hn : d.isNaN = true
  · exact .inr hn
  · exact .inl (Number.le_iff_not_lt.mpr ⟨Bool.eq_false_iff.mpr hn, hr, hnot⟩)

/-- A limit that is not-a-number keeps the bot from nothing. -/
theorem within_of_isNaN (hr : reach.isNaN = true) {d : Float}
    (hd : b.position.distance p = .ok d) : b.Within reach p := by
  refine ⟨d, hd, fun hlt => ?_⟩
  rw [Number.lt_iff_rank, hr] at hlt
  exact Bool.noConfusion hlt.1

end Bot

namespace Run

variable {m m' : Machine}

/-- A journey that succeeds ends in time. -/
theorem inTime_of_travelTo {p : Point} {result : CommandResult}
    (h : travelTo p m = .ok result m') (hs : result.success = true) :
    inTime m.clock m.bot.gotoDelay m.settings.gotoTimeout = true := by
  have hj := journey_cases p m
  generalize hg : (Port.call (.goto p) : Run Bool) m = r at hj
  cases hj with
  | arrived _ ht => exact ht
  | unbegun | late =>
    rw [travelTo, get_bind, bind_of_ok (attempt_of_ok hg)] at h
    cases h
    cases hs
  | refused =>
    obtain ⟨message, ht⟩ := travelTo_of_trouble hg
    cases ht.symm.trans h
    cases hs

theorem lt_of_inTime {now delay timeout : Float} (h : inTime now delay timeout = true)
    (hpos : 0 < delay) : now + delay < now + timeout := by
  unfold inTime at h
  rw [(Number.lt_iff_rank.mp hpos).2.1, decide_eq_false (Number.not_le_of_lt hpos)] at h
  exact of_decide_eq_true h

end Run

/-- A journey that takes time and succeeds is over before its time is up. -/
theorem Deed.Real.lt_of_arrives {d : Deed} (h : d.Real) (ha : d.Arrives)
    (hpos : 0 < d.before.bot.gotoDelay) : d.before.clock + d.before.bot.gotoDelay <
      d.before.clock + d.before.settings.gotoTimeout := by
  obtain ⟨⟨result, hr, hs⟩, loc, x, y, z, hc⟩ := ha
  obtain ⟨p, hp⟩ : ∃ p, Expr.Locate d.before.context x y z p := by
    rcases h.moves with ⟨-, loc', x', y', z', hc', hp⟩ | ⟨hnot, -⟩
    · cases hc.symm.trans hc'
      exact ⟨_, hp⟩
    · exact absurd ⟨⟨result, hr, hs⟩, loc, x, y, z, hc⟩ hnot
  unfold Deed.Real at h
  rw [hr, hc] at h
  obtain ⟨r, hcarry, hsuccess, -⟩ := Run.command_ok h hs
  rw [Run.goto_of_locate loc hp] at hcarry
  exact Run.lt_of_inTime (Run.inTime_of_travelTo hcarry hsuccess) hpos

namespace Machine

/-- What a run digs and places is within reach of where the bot is at the time. -/
theorem execute_within (m : Machine) (p : Program) {before rest : List Call} {call : Call}
    (hc : (m.execute p).2.bot.calls.toList = before ++ call :: rest)
    (hl : m.bot.calls.size ≤ before.length) (hb : call.ChangesBlock) :
    ∃ d ∈ m.history p, ∃ q, call.ChangesAt d.before.bot q ∧
      d.before.bot.Within m.settings.reach q := by
  obtain ⟨-, m₀, m₁, hi, hcourse, hs⟩ := m.execute_history p
  have hsame : (m.execute p).2.bot.calls = m₁.bot.calls := by
    obtain ⟨_, hs⟩ := hs.bot_eq
    rw [hs]
  obtain ⟨d, hd, now, hp, -⟩ :=
    (hi.backed.trans hcourse.backed).backed before call rest (hsame ▸ hc) hl hb
  obtain ⟨q, hq, hwithin⟩ := hp.within
  rw [hcourse.settings d hd, hi.1] at hwithin
  exact ⟨d, hd, q, hq, hwithin⟩

theorem history_real (m : Machine) (p : Program) :
    ∀ d ∈ m.history p, d.Real ∧ d.before.settings = m.settings := by
  obtain ⟨-, m₀, m₁, hi, hc, -⟩ := m.execute_history p
  exact fun d hd => ⟨hc.real d hd, (hc.settings d hd).trans hi.1⟩

/-- Which limits are accepted, and what they do. Accepted are the limits above zero, and
not-a-number as well. As long as the reach is above zero, all that a run digs and places lies no
farther from the bot, unless there is no order between the two; any other reach that is accepted
refuses no distance at all. And whatever time for journeys is accepted, no journey that takes time
succeeds when that time is up. -/
theorem execute_limited (m : Machine) (p : Program) (hm : m.settings.Given) :
    (∀ s : Settings, s.Given ↔ (0 < s.gotoTimeout ∨ s.gotoTimeout.isNaN = true) ∧
      (0 < s.reach ∨ s.reach.isNaN = true)) ∧
    (0 < m.settings.reach → ∀ before call rest,
      (m.execute p).2.bot.calls.toList = before ++ call :: rest →
      m.bot.calls.size ≤ before.length → call.ChangesBlock →
      ∃ d ∈ m.history p, ∃ q distance, call.ChangesAt d.before.bot q ∧
        d.before.bot.position.distance q = .ok distance ∧
        (distance ≤ m.settings.reach ∨ distance.isNaN = true)) ∧
    (¬ 0 < m.settings.reach → ∀ (b : Bot) (q : Point) (distance : Float),
      b.position.distance q = .ok distance → b.Within m.settings.reach q) ∧
    ∀ d ∈ m.history p, d.Arrives → 0 < d.before.bot.gotoDelay →
      0 < m.settings.gotoTimeout ∧
        d.before.clock + d.before.bot.gotoDelay < d.before.clock + m.settings.gotoTimeout := by
  obtain ⟨ht, hr⟩ := Settings.given_iff.mp hm
  refine ⟨fun s => Settings.given_iff, fun hpos before call rest hc hl hb => ?_,
    fun hnot b q distance hd => ?_, fun d hd ha hpos => ?_⟩
  · obtain ⟨d, hd, q, hq, hw⟩ := m.execute_within p hc hl hb
    obtain ⟨distance, hdist, hle⟩ := hw.le (Number.lt_iff_rank.mp hpos).2.1
    exact ⟨d, hd, q, distance, hq, hdist, hle⟩
  · exact Bot.within_of_isNaN (hr.resolve_left hnot) hd
  · obtain ⟨hreal, hs⟩ := m.history_real p d hd
    have hlt := hreal.lt_of_arrives ha hpos
    rw [hs] at hlt
    refine ⟨ht.resolve_right fun hn => ?_, hlt⟩
    have hsum : (d.before.clock + m.settings.gotoTimeout).isNaN = true :=
      Number.isNaN_add (.inr hn)
    exact Bool.noConfusion (hsum.symm.trans (Number.lt_iff_rank.mp hlt).2.1)

/-- A section of a file that shortens the reach, and a block that lies within it. -/
theorem execute_limited_section :
    let s : Settings := { reach := 4.5 }
    let stone : Block := ⟨"stone", ⟨3, 64, 0⟩⟩
    let m : Machine := .fresh { blocks := [stone] } s 0
    let p : Program := .ofStatements [.command ⟨1, 1⟩ (.dig ⟨1, 1⟩ none)]
    Settings.ofFile "config.yaml"
      (some "botscript:\n  max_interaction_distance: 4.5\n".toList) = .ok s ∧
    ∃ d ∈ m.history p, ∃ q distance, (Call.dig stone).ChangesAt d.before.bot q ∧
      d.before.bot.position.distance q = .ok distance ∧
      (distance ≤ 4.5 ∨ distance.isNaN = true) := by
  intro s stone m p
  have hs : Settings.ofFile "config.yaml"
      (some "botscript:\n  max_interaction_distance: 4.5\n".toList) = .ok s := by decide +kernel
  have hgiven : m.settings.Given := .inr ⟨_, _, _, hs⟩
  have hcalls : (m.execute p).2.bot.calls.toList = [.vitals] ++ .dig stone :: [] := by
    decide +kernel
  exact ⟨hs, (execute_limited m p hgiven).2.1 (by decide +kernel) _ _ _ hcalls (by decide)
    (.dig stone)⟩

/-- A reach that is not-a-number is accepted. It is not above zero, and a block a hundred away is
dug. -/
theorem execute_unlimited :
    let s : Settings := { reach := 0 / 0 }
    let stone : Block := ⟨"stone", ⟨100, 64, 0⟩⟩
    let m : Machine := .fresh { blocks := [stone] } s 0
    let p : Program := .ofStatements [.command ⟨1, 1⟩ (.dig ⟨1, 1⟩ none)]
    Settings.ofJson (.obj [("max_interaction_distance", .str "nan")]) = .ok s ∧
      Settings.ofFile "config.yaml" (some "max_interaction_distance: .nan\n".toList) = .ok s ∧
      ¬ 0 < s.reach ∧ Call.dig stone ∈ (m.execute p).2.bot.calls.toList := by
  decide +kernel

end Machine

end AgentScript

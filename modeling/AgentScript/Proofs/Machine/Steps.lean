import AgentScript.Machine

/-! What records of calls and waiting change in a machine. A request to stop is never taken back. -/
namespace AgentScript.Machine

variable {β : Type}

theorem begin_eq {m m' : Machine β} (h : m.begin = .ok m') :
    m' = { m with
      running := true
      stopRequested := false
      phase := .running
      context := m.context.markStart m.now } := by
  unfold begin at h
  split at h
  · cases h
  · cases h
    rfl

theorem countDown_eq (m : Machine β) (request : Request) :
    ∃ flag at?, m.countDown request = { m with stopRequested := flag, stopAt := at? } ∧
      (m.stopRequested = true → flag = true) := by
  unfold countDown
  split
  · split
    · exact ⟨m.stopRequested, m.stopAt, rfl, id⟩
    · split
      · exact ⟨true, none, rfl, fun _ => rfl⟩
      · exact ⟨m.stopRequested, _, rfl, id⟩
  · exact ⟨m.stopRequested, m.stopAt, rfl, id⟩

theorem record_eq (m : Machine) (call : Call) :
    ∃ flag at?, m.record call = { m with
        bot := { m.bot with calls := m.bot.calls.push call }
        stopRequested := flag
        stopAt := at? } ∧
      (m.stopRequested = true → flag = true) :=
  countDown_eq ({ m with bot := { m.bot with calls := m.bot.calls.push call } } : Machine)
    call.request

theorem run_eq (m : Machine β) (errand : Errand) :
    ∃ flag probes, m.run errand = { m with stopRequested := flag, probes := probes } ∧
      (m.stopRequested = true → flag = true) := by
  cases errand with
  | stop => exact ⟨true, m.probes, rfl, fun _ => rfl⟩
  | probe => exact ⟨m.stopRequested, _, rfl, id⟩

theorem foldl_run_eq (due : List Alarm) (m : Machine β) :
    ∃ flag probes, due.foldl (fun m a => m.run a.errand) m =
        { m with stopRequested := flag, probes := probes } ∧
      (m.stopRequested = true → flag = true) := by
  induction due generalizing m with
  | nil => exact ⟨m.stopRequested, m.probes, rfl, id⟩
  | cons a due ih =>
    obtain ⟨flag, probes, he, hf⟩ := run_eq m a.errand
    obtain ⟨flag', probes', he', hf'⟩ := ih (m.run a.errand)
    rw [he] at he' hf'
    exact ⟨flag', probes', by rw [List.foldl_cons, he, he'], fun hs => hf' (hf hs)⟩

theorem ring_eq (m : Machine β) (time : Float) :
    ∃ flag probes later, m.ring time =
        { m with stopRequested := flag, alarms := later, probes := probes } ∧
      (m.stopRequested = true → flag = true) := by
  obtain ⟨flag, probes, he, hf⟩ := foldl_run_eq (m.alarms.partition (·.due < time + tick)).1
    { m with alarms := (m.alarms.partition (·.due < time + tick)).2 }
  exact ⟨flag, probes, _, he, hf⟩

theorem waitUntil_eq (m : Machine β) (time : Float) :
    ∃ flag probes later, m.waitUntil time = { m with
        clock := if m.clock < time then time else m.clock
        stopRequested := flag
        alarms := later
        probes := probes } ∧
      (m.stopRequested = true → flag = true) := by
  obtain ⟨flag, probes, later, he, hf⟩ := ring_eq m time
  refine ⟨flag, probes, later, ?_, hf⟩
  unfold waitUntil
  rw [he]
  by_cases hc : m.clock < time
  · simp only [hc, if_true]
  · simp only [hc, if_false]

end AgentScript.Machine

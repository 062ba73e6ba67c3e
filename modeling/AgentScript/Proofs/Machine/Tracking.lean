import AgentScript.Proofs.Machine.Calm

/-! A stop cuts a run short: what was asked of the bot until then is a beginning of what the run asks
of it on a calm machine. -/
namespace AgentScript

def CallsGrow (m m' : Machine) : Prop := m.bot.calls.toList <+: m'.bot.calls.toList

theorem Bot.Effect.calls {b b' : Bot} (h : b.Effect b') : b'.calls = b.calls := by
  cases h <;> rfl

namespace Run

open RunOn (after)

variable {α β : Type}

theorem callsGrow_of_eq {m m' : Machine} (h : m'.bot.calls = m.bot.calls) : CallsGrow m m' := by
  refine ⟨[], ?_⟩
  rw [h, List.append_nil]

instance : AllowsBot CallsGrow where
  refl _ := List.prefix_rfl
  trans h h' := List.IsPrefix.trans h h'
  output _ _ := List.prefix_rfl
  record m call := by
    obtain ⟨flag, at?, he, -⟩ := m.record_eq call
    rw [CallsGrow, he, Array.toList_push]
    exact List.prefix_append _ _
  effect _ _ h := callsGrow_of_eq h.calls
  wait m time := by
    obtain ⟨flag, probes, later, he, -⟩ := m.waitUntil_eq time
    rw [he]
    exact callsGrow_of_eq rfl

instance : AllowsStatements CallsGrow where
  last _ _ := List.prefix_rfl
  count _ := List.prefix_rfl
  define _ _ _ _ _ _ := List.prefix_rfl
  assign _ _ _ _ _ := List.prefix_rfl
  scope _ _ h := h

/-- A part that does what it does on a calm machine, or that is stopped on the way. -/
def Tracks (part : Run α) : Prop := ∀ m,
  calmed (part m) = part m.calm ∨
  ∃ m', part m = .error .stopped m' ∧ CallsGrow m' (part.after m.calm)

theorem Steady.tracks {part : Run α} (h : Steady part) : Tracks part := fun m => .inl (h m)

theorem tracks_bind {part : Run α} {f : α → Run β} (hp : Tracks part) (hf : ∀ a, Tracks (f a))
    (hg : ∀ a, Keeps CallsGrow (f a)) : Tracks (part >>= f) := by
  intro m
  rcases hp m with hc | ⟨m', hs, hcalls⟩
  · cases h : part m with
    | ok a m' =>
      have hcalm : part m.calm = .ok a m'.calm := by rw [← hc, h, calmed]
      rcases hf a m' with hc' | ⟨m'', hs, hcalls⟩
      · left
        refine calmed_bind hc fun a₁ m₁ h₁ => ?_
        rw [h] at h₁
        cases h₁
        exact hc'
      · right
        have hafter : (part >>= f).after m.calm = (f a).after m'.calm := by
          rw [after, after, bind_of_ok hcalm]
        rw [bind_of_ok h, hafter]
        exact ⟨m'', hs, hcalls⟩
    | error halt m' =>
      left
      refine calmed_bind hc fun a₁ m₁ h₁ => ?_
      rw [h] at h₁
      cases h₁
  · right
    rw [bind_of_error hs]
    exact ⟨m', rfl, Lasting.trans hcalls (keeps_rest hg m.calm)⟩

theorem tracks_attempt {part : Run α} (h : Tracks part) : Tracks (attempt part) := by
  intro m
  rw [after_attempt]
  rcases h m with hc | ⟨m', hs, hcalls⟩
  · exact .inl (calmed_attempt hc)
  · exact .inr ⟨m', attempt_of_stopped hs, hcalls⟩

theorem tracks_locate (loc : Location) {part : Run α} (h : Tracks part) :
    Tracks (locate loc part) := by
  intro m
  rw [after_locate]
  rcases h m with hc | ⟨m', hs, hcalls⟩
  · exact .inl (calmed_locate loc hc)
  · exact .inr ⟨m', locate_of_stopped hs loc, hcalls⟩

theorem tracks_inScope {part : Run α} (h : Tracks part) : Tracks (inScope part) := by
  intro m
  rw [after_inScope]
  rcases h { m with context := m.context.enter } with hc | ⟨m', hs, hcalls⟩
  · exact .inl (calmed_inScope hc)
  · exact .inr ⟨{ m' with context := m'.context.exit }, by rw [inScope, hs], hcalls⟩

theorem tracks_checkStop : Tracks checkStop := by
  intro m
  have hcalm : checkStop m.calm = .ok () m.calm := checkStop_apply m.calm
  rw [after_of_ok hcalm, hcalm, checkStop_apply]
  by_cases h : m.stopRequested
  · rw [if_pos h]
    exact .inr ⟨m, rfl, List.prefix_rfl⟩
  · rw [if_neg h]
    exact .inl rfl

/-- A part that nothing stops on a calm machine. -/
def Free (part : Run α) : Prop := ∀ m m' : Machine, part m.calm ≠ .error .stopped m'

theorem Lasts.free {part : Run α} (h : Lasts part) : Free part := fun m => h m.calm

theorem free_changeContext (f : Context → Except Trouble Context) :
    Free (changeContext f) := by
  intro m m' h
  rw [changeContext_apply] at h
  split at h <;> cases h

/-- A part that tracks itself leaves a calm machine calm, so what follows is as free. -/
theorem free_bind {part : Run α} {f : α → Run β} (ht : Tracks part) (hp : Free part)
    (hf : ∀ a, Free (f a)) : Free (part >>= f) := by
  intro m m' h
  cases hm : part m.calm with
  | ok a m₁ =>
    have hcalm : m₁.calm = m₁ := by
      rcases ht m.calm with hc | ⟨m₂, hs, -⟩
      · change calmed (part m.calm) = part m.calm at hc
        rw [hm] at hc
        injection hc
      · exact (hp m m₂ hs).elim
    rw [bind_of_ok hm, ← hcalm] at h
    exact hf a m₁ m' h
  | error halt m₁ =>
    rw [bind_of_error hm] at h
    cases h
    exact hp m m' hm

theorem free_inScope {part : Run α} (hp : Free part) : Free (inScope part) := by
  intro m m' h
  unfold inScope at h
  split at h
  · cases h
  · next hs =>
    cases h
    exact hp { m with context := m.context.enter } _ hs

theorem free_checkStop : Free checkStop := by
  intro m m' h
  rw [checkStop_apply, if_neg (show ¬ m.calm.stopRequested = true from Bool.false_ne_true)] at h
  cases h

abbrev Grows (α : Type) (part : Run α) : Prop := Keeps CallsGrow part

/-- What is true of all parts of a run with respect to stops. -/
structure Follows (α : Type) (part : Run α) : Prop where
  tracks : Tracks part
  free : Free part
  grows : Grows α part

/-- What commands are made of follows itself for simple reasons. -/
theorem Follows.of_steady {part : Run α} (hs : Steady part) (hl : Lasts part)
    (hg : Grows α part) : Follows α part := ⟨hs.tracks, hl.free, hg⟩

theorem Follows.changeContext {f : Context → Except Trouble Context}
    (hg : Grows Unit (changeContext f)) : Follows Unit (changeContext f) :=
  ⟨(steady_changeContext f).tracks, free_changeContext f, hg⟩

instance : PartLaw Follows where
  pure a := .of_steady (StepLaw.pure a) (StepLaw.pure a) (StepLaw.pure (P := Grows) a)
  fail t := .of_steady (PartLaw.fail t) (PartLaw.fail t) (PartLaw.fail (P := Grows) t)
  bind hp hf :=
    { tracks := tracks_bind hp.tracks (fun a => (hf a).tracks) fun a => (hf a).grows
      free := free_bind hp.tracks hp.free fun a => (hf a).free
      grows := keeps_bind hp.grows fun a => (hf a).grows }
  read {_ f} hr hf := by
    have he : ∀ m : Machine, f m.calm = f m := fun m => hr m m.calm rfl rfl rfl rfl
    refine ⟨fun m => ?_, fun m m' h => ?_, fun m => (hf m).grows m⟩
    · rcases (hf m).tracks m with hc | ⟨m', hs, hcalls⟩
      · exact .inl (calmed_read hr hc)
      · have hafter : (get >>= f).after m.calm = (f m.calm).after m.calm := rfl
        rw [hafter, he]
        exact .inr ⟨m', hs, hcalls⟩
    · change f m.calm m.calm = _ at h
      rw [he] at h
      exact (hf m).free m m' h
  attempt h :=
    { tracks := tracks_attempt h.tracks
      free := fun m m' hs => h.free m m' (attempt_error hs).2
      grows := StepLaw.attempt (P := Grows) h.grows }
  locate loc h :=
    { tracks := tracks_locate loc h.tracks
      free := fun m m' hs => h.free m m' (locate_stopped hs)
      grows := StepLaw.locate (P := Grows) loc h.grows }
  log level text := .of_steady (StepLaw.log level text) (StepLaw.log level text)
    (StepLaw.log (P := Grows) level text)
  wait time := .of_steady (StepLaw.wait time) (StepLaw.wait time)
    (StepLaw.wait (P := Grows) time)

instance : BotLaw Follows where
  print text := .of_steady (BotLaw.print text) (BotLaw.print text)
    (BotLaw.print (P := Grows) text)
  record call := .of_steady (BotLaw.record call) (BotLaw.record call)
    (BotLaw.record (P := Grows) call)
  effect he := .of_steady (BotLaw.effect he) (BotLaw.effect he)
    (BotLaw.effect (P := Grows) he)

instance : StatementLaw Follows where
  checkStop := ⟨tracks_checkStop, free_checkStop, keeps_checkStop⟩
  inScope h := ⟨tracks_inScope h.tracks, free_inScope h.free,
    QuietLaw.inScope (P := Grows) h.grows⟩
  last result := ⟨Steady.tracks fun _ => rfl, fun _ _ h => (nomatch h),
    QuietLaw.last (P := Grows) result⟩
  count := .changeContext (QuietLaw.count (P := Grows))
  index i := .changeContext (StatementLaw.index (P := Grows) i)
  declare name v loc := .changeContext (StatementLaw.declare (P := Grows) name v loc)
  assign name v := .changeContext (StatementLaw.assign (P := Grows) name v)

theorem follows_program (b : Body) : Follows Unit (program b) := by
  refine law_program (P := Follows) (fun s now => .changeContext ?_) b
  refine keeps_changeContext fun m c _ => ?_
  exact List.prefix_rfl

end Run

end AgentScript

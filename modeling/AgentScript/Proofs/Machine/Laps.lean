import AgentScript.Proofs.Machine.Position
import AgentScript.Proofs.Number.Floor

/-! Loops. How often a loop repeats is settled by its count before the first iteration, and every
iteration has a frame of its own with nothing in it but its index: what a body assigns has no
influence on either. -/
namespace AgentScript

variable {β : Type}

namespace Machine

/-- The machine on which the body of a loop begins for the `k`th time, counted from zero: its
innermost frame is new and holds the index alone. -/
def iterating (m : Machine β) (k : Nat) : Machine β :=
  { m with context := { m.context with
      locals := [⟨Run.indexName, .number (Float.ofNat k), .local, false, ⟨0, 0⟩⟩] ::
        m.context.locals
      stats := { m.context.stats with definitions := m.context.stats.definitions + 1 } } }

def leave (m : Machine β) : Machine β := { m with context := m.context.exit }

end Machine

namespace Run

/-- `Laps body k m m'`: the body has come to its end `k` times, with the indices from zero on and no
stop asked for in between, on the way from one machine to the other. -/
inductive Laps (body : RunOn β Unit) : Nat → Machine β → Machine β → Prop
  | start (m : Machine β) : Laps body 0 m m
  | lap {k : Nat} {m m₁ m₂ : Machine β} (before : Laps body k m m₁)
    (going : m₁.stopRequested = false) (once : body (m₁.iterating k) = .ok () m₂) :
    Laps body (k + 1) m m₂.leave

/-- What it comes to when a body is repeated `n` times: all of the laps, or those before a stop that
takes effect, or before the first that does not come to its end. -/
inductive Repeats (body : RunOn β Unit) (n : Nat) (m : Machine β) :
    EStateM.Result Halt (Machine β) Unit → Prop
  | done {m' : Machine β} (laps : Laps body n m m') : Repeats body n m (.ok () m')
  | stopped {k : Nat} {m' : Machine β} (laps : Laps body k m m') (left : k < n)
    (asked : m'.stopRequested = true) : Repeats body n m (.error .stopped m')
  | halted {k : Nat} {m₁ m' : Machine β} {halt : Halt} (laps : Laps body k m m₁) (left : k < n)
    (going : m₁.stopRequested = false) (once : body (m₁.iterating k) = .error halt m') :
    Repeats body n m (.error halt m'.leave)

section Iterations

variable {body : RunOn β Unit} {part : Nat → RunOn β Unit} {k n : Nat} {m m' : Machine β}
  {halt : Halt}

theorem iteration_apply (body : RunOn β Unit) (k : Nat) (m : Machine β) :
    iteration body k m = inScope (fun _ => body (m.iterating k)) m :=
  iteration_eq rfl

theorem iteration_ok (h : body (m.iterating k) = .ok () m') :
    iteration body k m = .ok () m'.leave := by
  rw [iteration_apply]
  unfold inScope
  rw [h]
  rfl

theorem iteration_halts (h : body (m.iterating k) = .error halt m') :
    iteration body k m = .error halt m'.leave := by
  rw [iteration_apply]
  unfold inScope
  rw [h]
  rfl

/-- The last of the iterations, apart from those before it. -/
theorem times_snoc (part : Nat → RunOn β Unit) (i n : Nat) :
    times part i (n + 1) = times part i n >>= fun _ => times part (i + n) 1 := by
  induction n generalizing i with
  | zero => rfl
  | succ n ih =>
    have hi : i + 1 + n = i + (n + 1) := by omega
    have hfirst (k : Nat) : times part i (k + 1) =
        checkStop >>= fun _ => part i >>= fun _ => times part (i + 1) k := rfl
    rw [hfirst, ih, hfirst n, bind_assoc, hi]
    simp only [bind_assoc]

/-- A loop that has ended early does so however much was left to do. -/
theorem times_halts (h : times part 0 k m = .error halt m') (hn : k ≤ n) :
    times part 0 n m = .error halt m' := by
  induction n, hn using Nat.le_induction with
  | base => exact h
  | succ n _ ih => rw [times_snoc, bind_of_error ih]

theorem Laps.times (h : Laps body k m m') : times (iteration body) 0 k m = .ok () m' := by
  induction h with
  | start m => rfl
  | lap _ going once ih =>
    rw [times_snoc, bind_of_ok ih, times_succ going, bind_of_ok (iteration_ok ?_)]
    · rfl
    · rwa [Nat.zero_add]

theorem Repeats.times {r : EStateM.Result Halt (Machine β) Unit} (h : Repeats body n m r) :
    times (iteration body) 0 n m = r := by
  cases h with
  | done laps => exact laps.times
  | stopped laps left asked =>
    refine times_halts ?_ (Nat.succ_le_of_lt left)
    rw [times_snoc, bind_of_ok laps.times, times_stopped asked]
  | halted laps left going once =>
    refine times_halts ?_ (Nat.succ_le_of_lt left)
    rw [times_snoc, bind_of_ok laps.times, times_succ going, bind_of_error (iteration_halts ?_)]
    rwa [Nat.zero_add]

/-- A body that is repeated comes to something. -/
theorem exists_repeats (body : RunOn β Unit) (n : Nat) (m : Machine β) :
    ∃ r, Repeats body n m r := by
  induction n with
  | zero => exact ⟨_, .done (.start m)⟩
  | succ n ih =>
    obtain ⟨r, hr⟩ := ih
    cases hr with
    | stopped laps left asked => exact ⟨_, .stopped laps (by omega) asked⟩
    | halted laps left going once => exact ⟨_, .halted laps (by omega) going once⟩
    | @done m₁ laps =>
      cases hs : m₁.stopRequested with
      | true => exact ⟨_, .stopped laps n.lt_succ_self hs⟩
      | false =>
        cases hb : body (m₁.iterating n) with
        | ok u m₂ => exact ⟨_, .done (.lap laps hs hb)⟩
        | error halt m₂ => exact ⟨_, .halted laps n.lt_succ_self hs hb⟩

end Iterations

def closed (loc : Location) :
    EStateM.Result Halt (Machine β) Unit → EStateM.Result Halt (Machine β) Unit
  | .ok _ m => .ok () { m with context := m.context.countStatement }
  | .error (.trouble t) m => .error (.trouble (t.locate loc)) m
  | .error .stopped m => .error .stopped m

theorem counted_apply (loc : Location) (kind : String) (part : RunOn β Unit) (m : Machine β) :
    counted loc kind part m = closed loc (part (m.note loc kind)) := by
  cases h : part (m.note loc kind) with
  | ok u m' => exact counted_ok h
  | error halt m' =>
    cases halt with
    | trouble t => exact counted_error h
    | stopped => exact bind_of_error (locate_of_stopped h loc) _

theorem repetitions_of_floor {x : Float} (hx : x.isFinite) {n : Nat}
    (hn : ⌊Number.value x⌋ = n) : repetitions (.number x) = .ok n := by
  have hf : ¬ Number.floor x < 0 := by
    rw [Number.floor_eq, hn]
    omega
  rw [repetitions, if_pos hx, if_neg hf, Number.floor_eq, hn, Int.toNat_natCast]

theorem repetitions_refused {v : Value}
    (h : ∀ x, v = .number x → x.isFinite → ⌊Number.value x⌋ < 0) :
    ∃ cause, repetitions v = .error cause ∧ cause.kind = .badArgument := by
  cases v with
  | string s => exact ⟨_, rfl, rfl⟩
  | boolean b => exact ⟨_, rfl, rfl⟩
  | number x =>
    by_cases hx : x.isFinite
    · have hf : Number.floor x < 0 := by
        rw [Number.floor_eq]
        exact h x rfl hx
      exact ⟨.repeatNegative x, by rw [repetitions, if_pos hx, if_pos hf], rfl⟩
    · exact ⟨.repeatInfinite x, by rw [repetitions, if_neg hx], rfl⟩

variable [Port β]

/-- A loop whose count is a finite number, `n` when it is rounded down and not negative, is its body
repeated `n` times. For any other count it is refused, and nothing has changed but the log. -/
theorem loop_repeats (loc : Location) (count : Expr) (body : Body) (m : Machine β) (v : Value)
    (hv : count.eval m.context = .ok v) :
    (∀ (x : Float) (n : Nat), v = .number x → x.isFinite → ⌊Number.value x⌋ = n →
      ∃ r, (∀ r', Repeats (block body) n (m.note loc "RepeatStatement") r' ↔ r' = r) ∧
        statement (.loop loc count body) m = closed loc r) ∧
    ((∀ x, v = .number x → x.isFinite → ⌊Number.value x⌋ < 0) →
      ∃ e : ScriptError, e.cause.kind = .badArgument ∧
        statement (.loop loc count body) m =
          .error (.trouble (.error e)) (m.note loc "RepeatStatement")) := by
  have hv' : evaluate count (m.note loc "RepeatStatement") =
      .ok v (m.note loc "RepeatStatement") := evaluate_ok hv
  constructor
  · rintro x n rfl hx hn
    obtain ⟨r, hr⟩ := exists_repeats (block body) n (m.note loc "RepeatStatement")
    refine ⟨r, fun r' => ⟨fun hr' => hr'.times.symm.trans hr.times, fun he => he ▸ hr⟩, ?_⟩
    rw [statement, counted_apply, bind_of_ok hv', repetitions_of_floor hx hn]
    exact congrArg (closed loc) hr.times
  · intro h
    obtain ⟨cause, hc, hk⟩ := repetitions_refused h
    refine ⟨ScriptError.locate { cause := cause } loc, ?_, ?_⟩
    · rwa [ScriptError.cause_locate]
    · rw [statement, counted_apply, bind_of_ok hv', hc]
      rfl

/-- A loop that overwrites its index in both of its iterations, and one whose count is a text. -/
theorem loop_repeats_index :
    let m : Machine Idle := .fresh ⟨[]⟩ {} 0
    let loc : Location := ⟨1, 1⟩
    let body : Body := .statements [.assign loc (.word "_loop_index") (.number loc 2.5)]
    (∃ r, (∀ r', Repeats (block body) 2 (m.note loc "RepeatStatement") r' ↔ r' = r) ∧
      statement (.loop loc (.number loc 2.5) body) m = closed loc r) ∧
    ∃ e : ScriptError, e.cause.kind = .badArgument ∧
      statement (.loop loc (.string loc "two") body) m =
        .error (.trouble (.error e)) (m.note loc "RepeatStatement") := by
  intro m loc body
  have hfloor : ⌊Number.value 2.5⌋ = (2 : Nat) := by
    rw [← Number.floor_eq]
    decide +kernel
  constructor
  · exact (loop_repeats loc _ body m _ rfl).1 2.5 2 rfl (by decide +kernel) hfloor
  · refine (loop_repeats loc _ body m (.string "two") rfl).2 ?_
    rintro x ⟨⟩

end Run

end AgentScript

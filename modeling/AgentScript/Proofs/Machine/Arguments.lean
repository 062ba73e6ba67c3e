import AgentScript.Proofs.Machine.Keeps

/-! What the arguments of commands come to. To find it out leaves a machine as it is. -/
namespace AgentScript

inductive Expr.Counts (context : Context) : Option Expr → Int → Prop
  | one : Counts context none 1
  | floor {e : Expr} {x : Float} (he : e.eval context = .ok (.number x)) (hf : x.isFinite = true)
    (hx : 1 ≤ x) : Counts context (some e) (Number.floor x)

structure Expr.Locate (context : Context) (x y z : Expr) (p : Point) : Prop where
  x : x.eval context = .ok (.number p.x)
  y : y.eval context = .ok (.number p.y)
  z : z.eval context = .ok (.number p.z)

namespace Run

variable {α β γ : Type}

/-- A part of a run finds out something of a kind, or meets trouble. -/
inductive Reads (V : α → Prop) (part : RunOn β α) (m : Machine β) : Prop
  | ok {a : α} (h : part m = .ok a m) (hv : V a)
  | trouble {t : Trouble} (h : part m = .error (.trouble t) m)

section Reads

variable {V : α → Prop} {W : γ → Prop} {m : Machine β}

theorem reads_pure {a : α} (h : V a) : Reads V (pure a : RunOn β α) m := .ok rfl h

theorem reads_fail (t : Trouble) : Reads V (fail t : RunOn β α) m := .trouble rfl

theorem Reads.bind {part : RunOn β α} {f : α → RunOn β γ} (h : Reads V part m)
    (hf : ∀ a, V a → Reads W (f a) m) : Reads W (part >>= f) m := by
  rcases h with ⟨h, hv⟩ | ⟨h⟩
  · rcases hf _ hv with ⟨h', hw⟩ | ⟨h'⟩
    · exact .ok ((bind_of_ok h f).trans h') hw
    · exact .trouble ((bind_of_ok h f).trans h')
  · exact .trouble (bind_of_error h f)

theorem Reads.of_ok {part : RunOn β α} (h : Reads V part m) {a : α} {m' : Machine β}
    (hp : part m = .ok a m') : V a ∧ m' = m := by
  rcases h with ⟨h, hv⟩ | ⟨h⟩
  · cases h.symm.trans hp
    exact ⟨hv, rfl⟩
  · cases h.symm.trans hp

/-- What a relation allows to follow on what was found out, it allows on the whole. -/
theorem Reads.rel {R : Machine β → Machine β → Prop} [Lasting R] {part : RunOn β α}
    {f : α → RunOn β γ} (h : Reads V part m) (hf : ∀ a, V a → R m ((f a).after m)) :
    R m ((part >>= f).after m) := by
  rcases h with ⟨h, hv⟩ | ⟨h⟩
  · exact rel_bind (by rw [after_of_ok h]; exact Lasting.refl m) fun a m₁ ha => by
      cases h.symm.trans ha
      exact hf _ hv
  · rw [after_of_error (bind_of_error h f)]
    exact Lasting.refl m

end Reads

variable (m : Machine β)

theorem reads_evaluate (e : Expr) :
    Reads (fun v => e.eval m.context = .ok v) (evaluate e) m := by
  cases he : e.eval m.context with
  | ok v => exact .ok (evaluate_ok he) rfl
  | error t => exact .trouble (evaluate_error he)

theorem reads_argumentText (e : Expr) :
    Reads (fun text => ∃ v, e.eval m.context = .ok v ∧ text = v.text) (argumentText e) m :=
  (reads_evaluate m e).bind fun v hv => reads_pure ⟨v, hv, rfl⟩

theorem reads_coordinate (command : String) (e : Expr) :
    Reads (fun x => e.eval m.context = .ok (.number x)) (coordinate command e) m := by
  refine (reads_evaluate m e).bind fun v hv => ?_
  cases v with
  | number x => exact reads_pure hv
  | _ => exact reads_fail _

theorem reads_point (command : String) (x y z : Expr) :
    Reads (Expr.Locate m.context x y z) (point command x y z) m :=
  (reads_coordinate m command x).bind fun _ hx => (reads_coordinate m command y).bind fun _ hy =>
    (reads_coordinate m command z).bind fun _ hz => reads_pure ⟨hx, hy, hz⟩

theorem reads_dropCount (count : Option Expr) :
    Reads (Expr.Counts m.context count) (dropCount count) m := by
  cases count with
  | none => exact reads_pure .one
  | some e =>
    refine (reads_evaluate m e).bind fun v hv => ?_
    cases v with
    | number x =>
      dsimp only
      split
      · rename_i h
        obtain ⟨hf, hx⟩ := Bool.and_eq_true_iff.mp h
        exact reads_pure (.floor hv hf (of_decide_eq_true hx))
      · exact reads_fail _
    | _ => exact reads_fail _

theorem reads_kind (kind : Option Expr) :
    Reads (fun wanted => kind.mapM (fun e => Value.text <$> e.eval m.context) = .ok wanted)
      (kind.mapM argumentText) m := by
  cases kind with
  | none => exact reads_pure rfl
  | some e =>
    refine (reads_argumentText m e).bind fun text ⟨v, hv, ht⟩ => reads_pure ?_
    rw [ht]
    change some <$> Value.text <$> e.eval m.context = _
    rw [hv]
    rfl

end Run

end AgentScript

import AgentScript.Machine.Statement

/-! Causes of errors that a run finds by itself. Operators and counts of loops give no others. -/
namespace AgentScript

/-- Causes that a run finds by itself and that name no variable. -/
def Cause.own : Cause → Bool
  | unexpected .. | undefined _ | readonly _ | refused .. | stated .. => false
  | _ => true

theorem Cause.heading_of_own {c : Cause} (h : c.own) :
    c.kind.heading? = some "Execution error" := by
  cases c with
  | unexpected wanted token => cases h
  | stated kind text => cases h
  | _ => rfl

theorem BinaryOp.own_of_onNumbers {op : BinaryOp} {v w : Value}
    {f : Float → Float → Except Cause Value} {cause : Cause}
    (hf : ∀ x y, f x y = .error cause → cause.own) (h : op.onNumbers v w f = .error cause) :
    cause.own := by
  unfold onNumbers at h
  split at h
  · exact hf _ _ h
  · cases h
    rfl

theorem BinaryOp.own_of_apply {op : BinaryOp} {v w : Value} {cause : Cause}
    (h : op.apply v w = .error cause) : cause.own := by
  have total : ∀ g : Float → Float → Value,
      op.onNumbers v w (fun x y => .ok (g x y)) = .error cause → cause.own :=
    fun g => own_of_onNumbers fun _ _ he => nomatch he
  cases op with
  | add =>
    simp only [apply] at h
    split at h <;> cases h
  | divide =>
    refine own_of_onNumbers (fun x y he => ?_) h
    split at he
    · cases he
      rfl
    · cases he
  | equal => cases h
  | notEqual => cases h
  | and => cases h
  | or => cases h
  | _ => exact total _ h

theorem UnaryOp.own_of_apply {op : UnaryOp} {v : Value} {cause : Cause}
    (h : op.apply v = .error cause) : cause.own := by
  unfold apply at h
  split at h
  · cases h
  · cases h
  · cases h
    rfl

theorem Run.own_of_repetitions {v : Value} {cause : Cause}
    (h : repetitions v = .error cause) : cause.own := by
  unfold repetitions at h
  split at h
  · split at h
    · split at h
      · cases h
        rfl
      · cases h
    · cases h
      rfl
  · cases h
    rfl

end AgentScript

import AgentScript.Proofs.Context.Shape
import AgentScript.Proofs.Machine.Lawful

/-! Scopes balance: however a run ends, as many frames are open as before it, and a block leaves no
trace but new values of outer variables. -/
namespace AgentScript

variable {β : Type}

namespace Run

instance : Context.Lasting Context.Shaped := ⟨.refl, .trans⟩

instance : Context.Lasting Context.Beneath := ⟨.refl, .trans⟩

theorem shaped_inScope {part : RunOn β Unit} (h : Keeps (OnContext Context.Beneath) part) :
    Keeps (OnContext Context.Shaped) (inScope part) := by
  intro m
  rw [OnContext, after_inScope]
  exact (h { m with context := m.context.enter }).shaped_exit

/-- Parts that leave every open frame as it is, but for new values. -/
abbrev Shapes (α : Type) (part : RunOn β α) : Prop := Keeps (OnContext Context.Shaped) part

theorem shaped_count :
    Shapes Unit (changeContext fun c => .ok c.countStatement : RunOn β Unit) := by
  refine keeps_changeContext fun m c h => ?_
  cases h
  exact ⟨.refl _, Context.framesAlike_refl _⟩

section

variable [Port β] [LawfulPort β]

instance : AllowsStatements (OnContext Context.Beneath : Machine β → Machine β → Prop) where
  last _ _ := ⟨rfl, fun _ => .refl _, Context.framesAlike_refl _⟩
  count _ := ⟨rfl, fun _ => .refl _, Context.framesAlike_refl _⟩
  define _ _ _ _ _ h := Context.define_beneath h
  assign _ _ _ _ h := (Context.set_shaped h).beneath
  scope _ _ h := h.shaped_exit.beneath

theorem shaped_branch (loc : Location) (condition : Expr) (yes : Body) (no : Option Body) :
    Shapes Unit (statement (.branch loc condition yes no) : RunOn β Unit) := by
  refine law_counted (P := Shapes) loc _ ?_ shaped_count
  refine keeps_bind (law_evaluate (P := Shapes) condition) fun v => ?_
  cases v.truthy with
  | true => exact shaped_inScope (law_chosen (P := fun _ => Keeps _) yes)
  | false => exact shaped_inScope (law_otherwise (P := fun _ => Keeps _) no)

theorem shaped_loop (loc : Location) (count : Expr) (body : Body) :
    Shapes Unit (statement (.loop loc count body) : RunOn β Unit) := by
  have iterated : ∀ i, Shapes Unit (iteration (block body) i : RunOn β Unit) := by
    intro i
    refine shaped_inScope (keeps_bind ?_ fun _ => law_block (P := fun _ => Keeps _) body)
    exact StatementLaw.index (P := fun _ => Keeps _) i
  refine law_counted (P := Shapes) loc _ ?_ shaped_count
  refine keeps_bind (law_evaluate (P := Shapes) count) fun v => ?_
  refine keeps_bind (law_lift (P := Shapes) _) fun n => ?_
  exact law_times (P := Shapes) keeps_checkStop iterated 0 n

end

end Run

namespace Context

def SameDepth (c c' : Context) : Prop := c'.depth = c.depth

end Context

namespace Run

instance : Context.Lasting Context.SameDepth := ⟨fun _ => rfl, fun h h' => h'.trans h⟩

variable [Port β] [LawfulPort β]

instance : AllowsStatements (OnContext Context.SameDepth : Machine β → Machine β → Prop) where
  last _ _ := rfl
  count _ := rfl
  define _ _ _ _ _ h := (Context.define_beneath h).depth
  assign _ _ _ _ h := (Context.set_shaped h).beneath.depth
  scope _ m' h := by
    have hd : m'.context.depth = _ := h
    change m'.context.exit.depth = _
    simp only [Context.depth, Context.exit, Context.enter, List.length_drop,
      List.length_cons] at hd ⊢
    omega

theorem program_depth (m : Machine β) (b : Body) :
    ((program b).after m).context.depth = m.context.depth := by
  refine law_program (P := fun _ => Keeps (OnContext Context.SameDepth)) (fun s now => ?_) b m
  refine keeps_changeContext fun m c h => ?_
  change c.depth = m.context.depth
  rw [Context.depth, (Context.update_locals (mapError_eq_ok h)).1, Context.depth]

end Run

namespace Machine

variable [Port β] [LawfulPort β]

theorem execute_depth (m : Machine β) (p : Program) :
    (m.execute p).2.context.depth = m.context.depth :=
  execute_keeps (C := Context.SameDepth) (fun _ _ => rfl)
    (fun body _ m => Run.program_depth m body) m

end Machine

inductive Stmt.Nests : Stmt → Prop
  | branch (loc : Location) (condition : Expr) (yes : Body) (no : Option Body) :
    Nests (.branch loc condition yes no)
  | loop (loc : Location) (count : Expr) (body : Body) : Nests (.loop loc count body)

theorem scope_discipline (m : Machine) :
    (∀ p : Program, (m.execute p).2.context.depth = m.context.depth) ∧
    ∀ s : Stmt, s.Nests →
      m.context.Shaped ((Run.statement s).after m).context ∧
      ∀ name, ((Run.statement s).after m).context.has name = m.context.has name := by
  refine ⟨m.execute_depth, fun s hs => ?_⟩
  have h : Run.Keeps (OnContext Context.Shaped) (Run.statement s : Run Unit) := by
    cases hs with
    | branch loc condition yes no => exact Run.shaped_branch loc condition yes no
    | loop loc count body => exact Run.shaped_loop loc count body
  exact ⟨h m, Context.Shaped.has_eq (h m)⟩

end AgentScript

import AgentScript.Proofs.Machine.Keeps

/-! The course of a run: the readings at its start, and then which statements begin, in whatever
block they stand, and on which machine. -/
namespace AgentScript

variable {β : Type}

namespace Machine

def note (m : Machine β) (loc : Location) (kind : String) : Machine β :=
  m.log .debug ("line " ++ toString loc.line ++ ": " ++ kind)

/-- A run of a program begins, on a machine that is ready for it, with a block. -/
inductive Begins (m : Machine β) (p : Program) : Machine β → Body → Prop
  | intro {m' : Machine β} {body : Body} {n : Nat} (hm : m.begin = .ok m') (hb : p.body = .ok body)
    (hn : p.size = .ok n) :
    Begins m p (m'.log .info ("Executing program with " ++ toString n ++ " statements")) body

theorem Begins.execute_eq [Port β] {m m₀ : Machine β} {p : Program} {body : Body}
    (h : m.Begins p m₀ body) : m.execute p = m₀.runBody body := by
  obtain ⟨hm, hb, hn⟩ := h
  unfold execute
  rw [hm, hb, hn]

end Machine

namespace Run

theorem counted_error {loc : Location} {kind : String} {part : RunOn β Unit} {m m' : Machine β}
    {t : Trouble} (h : part (m.note loc kind) = .error (.trouble t) m') :
    counted loc kind part m = .error (.trouble (t.locate loc)) m' := by
  exact bind_of_error (locate_of_trouble h loc) _

theorem counted_ok {loc : Location} {kind : String} {part : RunOn β Unit} {m m' : Machine β}
    (h : part (m.note loc kind) = .ok () m') :
    counted loc kind part m = .ok () { m' with context := m'.context.countStatement } := by
  refine (bind_of_ok (locate_of_ok h loc) _).trans ?_
  rw [changeContext_apply]

variable [Port β]

theorem refresh_of_read {m m₁ : Machine β} {s : Snapshot} (h : readGauges m = .ok s m₁) :
    refresh m = changeContext (fun c => (c.update (some s) m₁.now).mapError .fault) m₁ := by
  exact bind_of_ok (attempt_of_ok h) _

theorem refresh_of_trouble {m m₁ : Machine β} {t : Trouble}
    (h : readGauges m = .error (.trouble t) m₁) :
    refresh m = changeContext (fun c => (c.update none m₁.now).mapError .fault)
      (m₁.log .warning
        ("Could not read telemetry, keeping previous system variables: " ++ t.text)) := by
  exact bind_of_ok (attempt_of_trouble h) _

/-- A statement opens a block, which begins on some machine: the block of a condition that holds or
does not hold, or the body of a loop once more after so many iterations. -/
inductive Opens : Stmt → Machine β → List Stmt → Machine β → Prop
  | yes {loc : Location} {condition : Expr} {list : List Stmt} {no : Option Body}
    {m : Machine β} {v : Value} (hv : condition.eval m.context = .ok v) (ht : v.truthy = true) :
    Opens (.branch loc condition (.statements list) no) m list
      { m.note loc "IfStatement" with context := m.context.enter }
  | no {loc : Location} {condition : Expr} {yes : Body} {list : List Stmt}
    {m : Machine β} {v : Value} (hv : condition.eval m.context = .ok v) (ht : v.truthy = false) :
    Opens (.branch loc condition yes (some (.statements list))) m list
      { m.note loc "IfStatement" with context := m.context.enter }
  | iteration {loc : Location} {count : Expr} {list : List Stmt} {m m' : Machine β} {v : Value}
    {n i : Nat} {c : Context} (hv : count.eval m.context = .ok v) (hn : repetitions v = .ok n)
    (hi : i < n)
    (hm : times (iteration (block (.statements list))) 0 i (m.note loc "RepeatStatement") =
      .ok () m')
    (hs : m'.stopRequested = false)
    (hc : m'.context.enter.define indexName (.number (Float.ofNat i)) .local false ⟨0, 0⟩ =
      .ok c) :
    Opens (.loop loc count (.statements list)) m list { m' with context := c }

/-- In a block that begins on a machine, a statement of the block begins on a machine: all before it
have come to their end, and no stop was asked for. -/
inductive Arrives : List Stmt → Machine β → Stmt → Machine β → Prop
  | first {s : Stmt} {rest : List Stmt} {m : Machine β} (hs : m.stopRequested = false) :
    Arrives (s :: rest) m s m
  | next {s t : Stmt} {rest : List Stmt} {m m₁ m₂ : Machine β} (hs : m.stopRequested = false)
    (h : statement s m = .ok () m₁) (ht : Arrives rest m₁ t m₂) : Arrives (s :: rest) m t m₂

/-- In a block that begins on a machine, a statement begins on a machine, in the block itself or in a
block within. -/
inductive Reaches : List Stmt → Machine β → Stmt → Machine β → Prop
  | here {list : List Stmt} {s : Stmt} {m m₁ : Machine β} (h : Arrives list m s m₁) :
    Reaches list m s m₁
  | within {list inner : List Stmt} {s t : Stmt} {m m₁ m₂ m₃ : Machine β}
    (h : Arrives list m s m₁) (ho : Opens s m₁ inner m₂) (ht : Reaches inner m₂ t m₃) :
    Reaches list m t m₃

section Relations

variable {R S : Machine β → Machine β → Prop} [AllowsStatements R] [Lasting S]

theorem statement_keeps (s : Stmt) : Keeps R (statement s) :=
  law_statement (P := fun _ => Keeps R) s

/-- Whatever statements keep, and the opening of a scope keeps in part, is kept in that part from the
beginning of a block to the beginning of a block within. -/
theorem Opens.rel (hRS : ∀ m m' : Machine β, R m m' → S m m')
    (henter : ∀ m : Machine β, S m { m with context := m.context.enter })
    {s : Stmt} {list : List Stmt} {m m' : Machine β} (h : Opens s m list m') : S m m' := by
  have hnote : ∀ loc kind, R m (m.note loc kind) := fun _ _ => AllowsParts.output m _
  cases h with
  | yes => exact Lasting.trans (hRS _ _ (hnote _ _)) (henter (m.note _ _))
  | no => exact Lasting.trans (hRS _ _ (hnote _ _)) (henter (m.note _ _))
  | @iteration loc _ list _ m₁ _ _ i c _ _ _ hm _ hc =>
    have iterated : ∀ i, Keeps R (Run.iteration (block (.statements list)) i) :=
      law_iteration (P := fun _ => Keeps R) (law_block (P := fun _ => Keeps R) _)
    have htimes : R (m.note loc "RepeatStatement") m₁ :=
      (law_times (P := fun _ => Keeps R) keeps_checkStop iterated 0 i).ok hm
    have hdefine : R { m₁ with context := m₁.context.enter } { m₁ with context := c } :=
      AllowsQuiet.define { m₁ with context := m₁.context.enter } _ _ _ c hc
    exact Lasting.trans (hRS _ _ (Lasting.trans (hnote _ _) htimes))
      (Lasting.trans (henter m₁) (hRS _ _ hdefine))

theorem Arrives.rel {list : List Stmt} {s : Stmt} {m m' : Machine β} (h : Arrives list m s m') :
    R m m' := by
  induction h with
  | first => exact Lasting.refl _
  | next _ h _ ih => exact Lasting.trans ((statement_keeps _).ok h) ih

theorem Reaches.rel (hRS : ∀ m m' : Machine β, R m m' → S m m')
    (henter : ∀ m : Machine β, S m { m with context := m.context.enter })
    {list : List Stmt} {s : Stmt} {m m' : Machine β} (h : Reaches list m s m') : S m m' := by
  induction h with
  | here h => exact hRS _ _ h.rel
  | within h ho _ ih =>
    exact Lasting.trans (hRS _ _ h.rel) (Lasting.trans (ho.rel hRS henter) ih)

end Relations

end Run

end AgentScript

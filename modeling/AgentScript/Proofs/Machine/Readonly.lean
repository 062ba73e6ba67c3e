import AgentScript.Proofs.Context.Guard
import AgentScript.Proofs.Machine.Reach
import AgentScript.Proofs.Machine.Scope

/-! Readonly variables are out of a script's reach: from the readings at its start on, a run leaves
them as they are, and a statement that would change one fails. -/
namespace AgentScript

variable {β : Type}

namespace Context

def Sealed (c : Context) (name : String) : Prop :=
  ∃ b, c.globals.find? name = some b ∧ b.readonly = true

theorem sealed_writeSystem (c : Context) (n : String) (v : Value) {name : String}
    (h : n = name ∨ c.Sealed name) : (c.writeSystem n v).Sealed name := by
  unfold Sealed writeSystem
  rw [Frame.find?_put]
  by_cases hn : (systemBinding n v).name = name
  · rw [if_pos hn]
    exact ⟨_, rfl, rfl⟩
  · rw [if_neg hn]
    exact h.resolve_left hn

theorem sealed_foldl (shown : List (String × Value)) {c : Context} {name : String}
    (h : (∃ x ∈ shown, x.1 = name) ∨ c.Sealed name) :
    (shown.foldl (fun c (name, v) => c.writeSystem name v) c).Sealed name := by
  induction shown generalizing c with
  | nil =>
    rcases h with ⟨x, hx, -⟩ | h
    · cases hx
    · exact h
  | cons y shown ih =>
    rw [List.foldl_cons]
    refine ih ?_
    rcases h with ⟨x, hx, hn⟩ | h
    · rcases List.mem_cons.mp hx with rfl | hx
      · exact .inr (sealed_writeSystem c _ _ (.inl hn))
      · exact .inl ⟨x, hx, hn⟩
    · exact .inr (sealed_writeSystem c _ _ (.inr h))

/-- What readings are written to is readonly then, and what was readonly stays so. -/
theorem sealed_update {c c' : Context} {s : Option Snapshot} {now : Float}
    (h : c.update s now = .ok c') :
    c'.Sealed "timestamp" ∧ (∀ name, c.Sealed name → c'.Sealed name) ∧
    ∀ readings ∈ s, ∃ shown, readings.toVariables = .ok shown ∧ ∀ x ∈ shown, c'.Sealed x.1 := by
  unfold update at h
  cases s with
  | none =>
    cases h
    exact ⟨sealed_writeSystem c _ _ (.inl rfl), fun _ hn => sealed_writeSystem c _ _ (.inr hn),
      fun _ hr => nomatch hr⟩
  | some readings =>
    obtain ⟨shown, hs, h⟩ := bind_eq_ok h
    cases h
    refine ⟨sealed_writeSystem _ _ _ (.inl rfl), fun _ hn => ?_, fun r hr => ?_⟩
    · exact sealed_writeSystem _ _ _ (.inr (sealed_foldl shown (.inr hn)))
    · cases hr
      refine ⟨shown, hs, fun x hx => ?_⟩
      exact sealed_writeSystem _ _ _ (.inr (sealed_foldl shown (.inl ⟨x, hx, rfl⟩)))

end Context

namespace Run

open RunOn (after)

instance : Context.Lasting Context.Guarded := ⟨.refl, .trans⟩

instance : Context.Lasting Context.Guards := ⟨.refl, .trans⟩

variable [Port β]

section Refused

variable {m : Machine β} {loc : Location} {label : Label} {name : String} {e : Expr} {v : Value}
  {b : Binding}

/-- A statement fails for a readonly variable, and all that it has changed is the log. -/
def Refused (s : Stmt) (kind name : String) (m : Machine β) : Prop :=
  ∃ error : ScriptError, statement s m = .error (.trouble (.error error)) (m.note s.loc kind) ∧
    error.cause = .readonly name

theorem assign_refused (hk : label.key = .ok name) (he : e.eval m.context = .ok v)
    (hb : m.context.lookup? name = some b) (hr : b.readonly = true) :
    Refused (.assign loc label e) "Assignment" name m := by
  have ha : m.context.assign label v = .error (.error { cause := .readonly name }) := by
    have hh : m.context.has name = true := by rw [Context.has, hb, Option.isSome_some]
    rw [Context.assign_eq hk, if_pos hh, Context.set_readonly hb hr]
    rfl
  refine ⟨_, counted_error (t := .error { cause := .readonly name }) ?_, ScriptError.cause_locate ..⟩
  rw [bind_of_ok (evaluate_ok (m := m.note loc "Assignment") he)]
  exact changeContext_error ha

theorem declare_refused (hk : label.key = .ok name) (he : e.eval m.context = .ok v)
    (hb : m.context.innermost.find? name = some b) (hr : b.readonly = true) :
    Refused (.declare loc label e) "VariableDeclaration" name m := by
  have ha : m.context.declare label v loc = .error (.error (Context.refusal name loc)) := by
    rw [Context.declare_eq hk, Context.define_readonly hb hr]
    rfl
  refine ⟨_, counted_error (t := .error (Context.refusal name loc)) ?_,
    ScriptError.cause_locate ..⟩
  rw [bind_of_ok (evaluate_ok (m := m.note loc "VariableDeclaration") he)]
  exact changeContext_error ha

/-- A block may define a name anew that means a readonly variable outside of it. -/
theorem declare_shadows {f : Frame} {rest : List Frame} (hk : label.key = .ok name)
    (he : e.eval m.context = .ok v) (hl : m.context.locals = f :: rest)
    (hf : (f.find? name).any (·.readonly) = false) :
    ∃ m' f', statement (.declare loc label e) m = .ok () m' ∧
      m'.context.lookup? name = some ⟨name, v, .local, false, loc⟩ ∧
      m'.context.locals = f' :: rest ∧ m'.context.globals = m.context.globals := by
  obtain ⟨c', f', hd, hn, hl', hg⟩ := Context.define_shadows hl hf v loc
  have ha : m.context.declare label v loc = .ok c' := by
    rw [Context.declare_eq hk, hd]
    rfl
  have hd : (evaluate e >>= fun v => changeContext (·.declare label v loc) : RunOn β Unit)
      (m.note loc "VariableDeclaration") =
        .ok () { m.note loc "VariableDeclaration" with context := c' } := by
    rw [bind_of_ok (evaluate_ok (m := m.note loc "VariableDeclaration") he)]
    exact changeContext_ok ha
  exact ⟨_, f', counted_ok hd, hn, hl', hg⟩

end Refused

variable [LawfulPort β]

instance : AllowsStatements (OnContext Context.Guarded : Machine β → Machine β → Prop) where
  last _ _ := ⟨rfl, fun _ _ _ h _ => h⟩
  count _ := ⟨rfl, fun _ _ _ h _ => h⟩
  define _ _ _ _ _ h := ⟨(Context.define_beneath h).depth, Context.define_guards h⟩
  assign _ _ _ _ h := ⟨(Context.set_shaped h).beneath.depth, (Context.set_shaped h).guards⟩
  scope _ _ h := h.exit

theorem Reaches.guards {list : List Stmt} {s : Stmt} {m m' : Machine β}
    (h : Reaches list m s m') : m.context.Guards m'.context :=
  h.rel (R := OnContext Context.Guarded) (S := OnContext Context.Guards) (fun _ _ h => h.guards)
    fun m => Context.guards_enter m.context

theorem statement_guards (s : Stmt) (m : Machine β) :
    m.context.Guards ((statement s).after m).context :=
  (statement_keeps (R := OnContext Context.Guarded) s m).guards

/-- After a block a name means the readonly variable that it meant before. -/
theorem nests_lookup? {s : Stmt} (hs : s.Nests) {m : Machine β} {name : String} {b : Binding}
    (hb : m.context.lookup? name = some b) (hr : b.readonly = true) :
    ((statement s).after m).context.lookup? name = some b := by
  have h : Keeps (OnContext Context.Shaped) (statement s : RunOn β Unit) := by
    cases hs with
    | branch loc condition yes no => exact shaped_branch loc condition yes no
    | loop loc count body => exact shaped_loop loc count body
  exact (h m).lookup?_eq hb hr

/-- The readings at the start of a run are written into the context that it begins with. -/
theorem refresh_update {m m' : Machine β} (h : refresh m = .ok () m') :
    ∃ s now, m.context.update s now = .ok m'.context := by
  have written : ∀ (s : Option Snapshot) (m₂ : Machine β), m₂.context = m.context →
      changeContext (fun c => (c.update s m₂.now).mapError .fault) m₂ = .ok () m' →
      ∃ s now, m.context.update s now = .ok m'.context := by
    intro s m₂ hm h
    rw [changeContext_apply, hm] at h
    cases hu : m.context.update s m₂.now with
    | error f =>
      rw [hu] at h
      cases h
    | ok c =>
      rw [hu] at h
      cases h
      exact ⟨s, m₂.now, hu⟩
  have hread := law_readGauges (P := fun _ => Keeps (OnContext Context.Same)) m
  cases hg : readGauges m with
  | ok s m₁ =>
    rw [refresh_of_read hg] at h
    rw [after_of_ok hg] at hread
    exact written _ m₁ hread h
  | error halt m₁ =>
    rw [after_of_error hg] at hread
    cases halt with
    | stopped => exact (law_readGauges (P := fun _ => Lasts) m m₁ hg).elim
    | trouble t =>
      rw [refresh_of_trouble hg] at h
      exact written none (m₁.log .warning _) hread h

end Run

namespace Machine

open RunOn (after)

variable [Port β]

/-- The end of a run has no part in its variables. -/
theorem ended_frames (part : RunOn β Unit) (m : Machine β) :
    (ended (part m)).2.context.frames = (part.after m).context.frames := by
  obtain ⟨stats, he⟩ := ended_context part m
  rw [he]
  rfl

theorem runBody_guards [LawfulPort β] (m : Machine β) (b : Body) :
    (Run.refresh.after m).context.Guards (m.runBody b).2.context := by
  have hk : ∀ u : Unit, Run.Keeps (OnContext Context.Guarded) (Run.block b : RunOn β Unit) :=
    fun _ => Run.law_block (P := fun _ => Run.Keeps (OnContext Context.Guarded)) b
  have hb : (Run.refresh.after m).context.Guarded ((Run.program b).after m).context :=
    Run.keeps_rest hk m
  intro height name binding h hr
  have hf : (m.runBody b).2.context.frames = ((Run.program b).after m).context.frames :=
    ended_frames (Run.program b) m
  unfold Context.bindingAt?
  rw [hf]
  exact hb.guards height name binding h hr

end Machine

/-- What scripts can do about readonly variables on a bot of any kind, whatever happens to it. From
the readings at its start on, a run leaves every readonly variable as it is: the ones that the
readings wrote, the time, and those that were readonly before. They are so whenever a statement
begins or ends, and at the end of the run. An assignment to a readonly variable fails and changes
nothing, and so does its definition anew in the same frame; a definition in a block hides it until
that block ends. -/
theorem readonly_immune [Port β] [LawfulPort β] (m m₀ : Machine β) (p : Program) (b : Body)
    (h : m.Begins p m₀ b) :
    (Run.refresh.after m₀).context.Guards (m.execute p).2.context ∧
    (∀ m₁, Run.refresh m₀ = .ok () m₁ →
      m₁.context.Sealed "timestamp" ∧
      (∀ name, m₀.context.Sealed name → m₁.context.Sealed name) ∧
      ∃ snapshot now, m₀.context.update snapshot now = .ok m₁.context ∧
        ∀ readings ∈ snapshot, ∃ shown, readings.toVariables = .ok shown ∧
          ∀ x ∈ shown, m₁.context.Sealed x.1) ∧
    (∀ m₁ list s m₂, Run.refresh m₀ = .ok () m₁ → b = .statements list →
      Run.Reaches list m₁ s m₂ →
        m₁.context.Guards m₂.context ∧ m₁.context.Guards ((Run.statement s).after m₂).context) ∧
    (∀ (m₂ : Machine β) loc label name e v binding, label.key = .ok name →
      e.eval m₂.context = .ok v → binding.readonly = true →
        (m₂.context.lookup? name = some binding →
          Run.Refused (.assign loc label e) "Assignment" name m₂) ∧
        (m₂.context.innermost.find? name = some binding →
          Run.Refused (.declare loc label e) "VariableDeclaration" name m₂)) ∧
    (∀ (m₂ : Machine β) loc label name e v f rest, label.key = .ok name →
      e.eval m₂.context = .ok v → m₂.context.locals = f :: rest →
      (f.find? name).any (·.readonly) = false →
        ∃ m₃ f', Run.statement (.declare loc label e) m₂ = .ok () m₃ ∧
          m₃.context.lookup? name = some ⟨name, v, .local, false, loc⟩ ∧
          m₃.context.locals = f' :: rest ∧ m₃.context.globals = m₂.context.globals) ∧
    (∀ (m₂ : Machine β) s name binding, s.Nests → m₂.context.lookup? name = some binding →
      binding.readonly = true →
        ((Run.statement s).after m₂).context.lookup? name = some binding) := by
  refine ⟨?_, ?_, ?_, ?_, ?_, ?_⟩
  · rw [h.execute_eq]
    exact m₀.runBody_guards b
  · intro m₁ hr
    obtain ⟨s, now, hu⟩ := Run.refresh_update hr
    obtain ⟨htime, hkept, hshown⟩ := Context.sealed_update hu
    exact ⟨htime, hkept, s, now, hu, hshown⟩
  · intro m₁ list s m₂ _ _ hs
    exact ⟨hs.guards, hs.guards.trans (Run.statement_guards s m₂)⟩
  · intro m₂ loc label name e v binding hk he hr
    exact ⟨fun hb => Run.assign_refused hk he hb hr, fun hb => Run.declare_refused hk he hb hr⟩
  · intro m₂ loc label name e v f rest hk he hl hf
    exact Run.declare_shadows hk he hl hf
  · intro m₂ s name binding hs hb hr
    exact Run.nests_lookup? hs hb hr

/-- A script that tries to change a built-in variable begins to run. -/
theorem readonly_immune_pi :
    ∃ m₀ b, (Machine.fresh ({} : Bot) {} 0).Begins
        (.ofStatements [.assign ⟨1, 1⟩ (.word "pi") (.number ⟨1, 6⟩ 3)]) m₀ b ∧
      (Run.refresh.after m₀).context.Guards ((Machine.fresh ({} : Bot) {} 0).execute
        (.ofStatements [.assign ⟨1, 1⟩ (.word "pi") (.number ⟨1, 6⟩ 3)])).2.context := by
  have h : (Machine.fresh ({} : Bot) {} 0).Begins
      (.ofStatements [.assign ⟨1, 1⟩ (.word "pi") (.number ⟨1, 6⟩ 3)]) _ _ := ⟨rfl, rfl, rfl⟩
  exact ⟨_, _, h, (readonly_immune _ _ _ _ h).1⟩

end AgentScript

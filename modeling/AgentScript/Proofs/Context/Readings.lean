import AgentScript.Proofs.Context.Guard

/-! Readings in a context: which variables they define, and that they leave every other name as it
was. -/
namespace AgentScript

namespace Frame

/-- Of the variables that are put into a frame, the last one of a name is found. -/
theorem find?_foldl_put (bindings : List Binding) (f : Frame) (name : String) :
    (bindings.foldl put f).find? name = (Frame.find? bindings.reverse name).or (f.find? name) := by
  induction bindings generalizing f with
  | nil => rfl
  | cons b bindings ih =>
    have hlast : Frame.find? (bindings.reverse ++ [b]) name =
        (Frame.find? bindings.reverse name).or (Frame.find? [b] name) := List.find?_append
    rw [List.foldl_cons, ih, find?_put, List.reverse_cons, hlast, find?_cons, Option.or_assoc]
    by_cases hn : b.name = name
    · rw [if_pos hn, if_pos hn, Option.some_or]
    · rw [if_neg hn, if_neg hn]
      rfl

theorem find?_foldl_put_other (bindings : List Binding) (f : Frame) {name : String}
    (h : ∀ b ∈ bindings, b.name ≠ name) : (bindings.foldl put f).find? name = f.find? name := by
  have hnone : Frame.find? bindings.reverse name = none :=
    List.find?_eq_none.mpr fun b hb => by simpa using h b (List.mem_reverse.mp hb)
  rw [find?_foldl_put, hnone, Option.none_or]

end Frame

def readingNames : List String := "timestamp" :: Gauge.all.map Gauge.variableName

theorem timestamp_mem_readingNames : "timestamp" ∈ readingNames := List.mem_cons_self

theorem Gauge.mem_all (g : Gauge) : g ∈ Gauge.all := by
  cases g <;> decide

theorem Gauge.variableName_mem (g : Gauge) : g.variableName ∈ readingNames :=
  List.mem_cons_of_mem _ (List.mem_map_of_mem g.mem_all)

/-- The variables that a snapshot defines are those of gauges. -/
theorem Snapshot.names_toVariables {s : Snapshot} {shown : List (String × Value)}
    (h : s.toVariables = .ok shown) {x : String × Value} (hx : x ∈ shown) :
    x.1 ∈ readingNames := by
  obtain ⟨values, hv, h⟩ := bind_eq_ok h
  cases h
  obtain ⟨⟨name, v⟩, hmem, hval⟩ := List.mem_filterMap.mp hx
  have hnames : ∀ named ∈ values, ∃ g : Gauge, g.variableName = named.1 := by
    refine mapM_ok (fun g named hg => ?_) hv
    obtain ⟨v, -, hg⟩ := bind_eq_ok hg
    cases hg
    exact ⟨g, rfl⟩
  obtain ⟨w, -, rfl⟩ := Option.map_eq_some_iff.mp hval
  obtain ⟨g, hg⟩ := hnames _ hmem
  rw [← hg]
  exact g.variableName_mem

namespace Context

/-- The context with the variables that some readings define and with the time. -/
def showing (c : Context) (shown : List (String × Value)) (now : Float) : Context :=
  (shown.foldl (fun c (name, v) => c.writeSystem name v) c).writeSystem "timestamp" (.number now)

theorem update_none (c : Context) (now : Float) : c.update none now = .ok (c.showing [] now) := rfl

theorem update_some (c : Context) (s : Snapshot) (now : Float) :
    c.update (some s) now = s.toVariables.map (c.showing · now) := by
  unfold update
  dsimp only
  cases s.toVariables <;> rfl

/-- The variables of a snapshot are written to the global frame, and the time after them. -/
theorem showing_eq (c : Context) (shown : List (String × Value)) (now : Float) :
    c.showing shown now =
      { c with
        globals := ((shown ++ [("timestamp", Value.number now)]).map
          fun x => systemBinding x.1 x.2).foldl Frame.put c.globals } := by
  unfold showing
  induction shown generalizing c with
  | nil => rfl
  | cons x shown ih =>
    rw [List.foldl_cons, ih]
    rfl

/-- What lasts when a system variable is written to two contexts, readings leave as it is. -/
theorem showing_rel {R : Context → Context → Prop} {shown : List (String × Value)} {now : Float}
    (hw : ∀ x ∈ shown ++ [("timestamp", Value.number now)], ∀ {c c' : Context}, R c c' →
      R (c.writeSystem x.1 x.2) (c'.writeSystem x.1 x.2)) {c c' : Context} (h : R c c') :
    R (c.showing shown now) (c'.showing shown now) := by
  induction shown generalizing c c' with
  | nil => exact hw ("timestamp", .number now) List.mem_cons_self h
  | cons x shown ih =>
    exact ih (fun y hy => hw y (List.mem_cons_of_mem x hy)) (hw x List.mem_cons_self h)

variable {c : Context} {shown : List (String × Value)} {now : Float} {name : String}

theorem globals_showing (ht : name ≠ "timestamp") (h : ∀ x ∈ shown, x.1 ≠ name) :
    (c.showing shown now).globals.find? name = c.globals.find? name := by
  rw [showing_eq]
  refine Frame.find?_foldl_put_other _ _ fun b hb => ?_
  obtain ⟨x, hx, rfl⟩ := List.mem_map.mp hb
  rcases List.mem_append.mp hx with hx | hx
  · exact h x hx
  · rw [List.mem_singleton.mp hx]
    exact ht.symm

theorem lookup?_showing (ht : name ≠ "timestamp") (h : ∀ x ∈ shown, x.1 ≠ name) :
    (c.showing shown now).lookup? name = c.lookup? name := by
  have hg : (c.showing shown now).globals.find? name = c.globals.find? name := globals_showing ht h
  have hl : (c.showing shown now).locals = c.locals := by rw [showing_eq]
  unfold lookup? frames
  rw [hl, List.findSome?_append, List.findSome?_append, List.findSome?_singleton,
    List.findSome?_singleton, hg]

theorem timestamp_showing (c : Context) (shown : List (String × Value)) (now : Float) :
    (c.showing shown now).globals.find? "timestamp" =
      some (systemBinding "timestamp" (.number now)) := by
  rw [showing, writeSystem, Frame.find?_put]
  exact if_pos rfl

end Context

end AgentScript

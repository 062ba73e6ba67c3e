import AgentScript.Proofs.Context.Height
import Mathlib.Data.List.Nodup
import Mathlib.Tactic.Choose

/-! What an update does to a context, told by gauge. It shows all readings or none: a reading without
a value stops it before the first variable is written. What is shown takes the place of what was shown
before, gauge by gauge, and all else stays as it was. -/
namespace AgentScript

/-- The value that a datum shows as: truth values and strings as they are, all else as a number. -/
inductive Json.Shows : Json → Value → Prop
  | bool (b : Bool) : Shows (.bool b) (.boolean b)
  | str (s : String) : Shows (.str s) (.string s)
  | number {j : Json} {x : Float} (hb : ∀ b, j ≠ .bool b) (hs : ∀ s, j ≠ .str s)
      (h : j.toFloat = .ok x) : Shows j (.number x)

theorem Json.not_shows_null {v : Value} : ¬ Json.null.Shows v := by
  intro h
  cases h with
  | number _ _ h => cases h

namespace Snapshot

theorem valueOf_number {j : Json} (hn : j ≠ .null) (hb : ∀ b, j ≠ .bool b) (hs : ∀ s, j ≠ .str s) :
    valueOf j = j.toFloat.map fun x => some (.number x) := by
  cases j with
  | null => exact (hn rfl).elim
  | bool b => exact (hb b rfl).elim
  | str s => exact (hs s rfl).elim
  | int | real | arr | obj => rfl

/-- All data that convert but null, truth values and strings do so as numbers. -/
theorem number_of_valueOf {j : Json} {shown? : Option Value} (h : valueOf j = .ok shown?)
    (hn : j ≠ .null) (hb : ∀ b, j ≠ .bool b) (hs : ∀ s, j ≠ .str s) :
    ∃ x, j.toFloat = .ok x ∧ shown? = some (.number x) := by
  rw [valueOf_number hn hb hs] at h
  obtain ⟨x, hx, rfl⟩ := map_eq_ok h
  exact ⟨x, hx, rfl⟩

theorem shows_iff {j : Json} {v : Value} : j.Shows v ↔ valueOf j = .ok (some v) := by
  constructor
  · intro h
    cases h with
    | bool b => rfl
    | str s => rfl
    | number hb hs h =>
      have hn : j ≠ .null := by
        rintro rfl
        cases h
      rw [valueOf_number hn hb hs, h]
      rfl
  · intro h
    cases j with
    | null => cases h
    | bool b =>
      cases h
      exact .bool b
    | str s =>
      cases h
      exact .str s
    | int | real | arr | obj =>
      obtain ⟨x, hx, hv⟩ := number_of_valueOf h nofun nofun nofun
      cases hv
      exact .number nofun nofun hx

theorem valueOf_eq_none_iff {j : Json} : valueOf j = .ok none ↔ j = .null := by
  constructor
  · intro h
    cases j with
    | null => rfl
    | bool | str => cases h
    | int | real | arr | obj =>
      obtain ⟨x, -, hv⟩ := number_of_valueOf h nofun nofun nofun
      cases hv
  · rintro rfl
    rfl

/-- Every reading that was taken has a value. -/
def Convertible (s : Snapshot) : Prop := ∀ g, s.reading g ≠ .null → ∃ v, (s.reading g).Shows v

theorem convertible_iff {s : Snapshot} :
    s.Convertible ↔ ∀ g, ∃ shown?, valueOf (s.reading g) = .ok shown? := by
  constructor
  · intro h g
    by_cases hn : s.reading g = .null
    · exact ⟨none, valueOf_eq_none_iff.mpr hn⟩
    · obtain ⟨v, hv⟩ := h g hn
      exact ⟨some v, shows_iff.mp hv⟩
  · intro h g hn
    obtain ⟨shown?, hg⟩ := h g
    cases shown? with
    | none => exact absurd (valueOf_eq_none_iff.mp hg) hn
    | some v => exact ⟨v, shows_iff.mpr hg⟩

/-- The variables of a snapshot are one for each reading that was taken. -/
theorem toVariables_of_convertible {s : Snapshot} (h : s.Convertible) :
    ∃ shown, s.toVariables = .ok shown ∧
      ∀ x, x ∈ shown ↔ ∃ g : Gauge, x.1 = g.variableName ∧ (s.reading g).Shows x.2 := by
  choose shown? hshown using convertible_iff.mp h
  have hmap : Gauge.all.mapM (fun g => do return (g.variableName, ← valueOf (s.reading g))) =
      (.ok (Gauge.all.map fun g => (g.variableName, shown? g)) : Except Fault _) := by
    refine mapM_eq_map (fun g => ?_) _
    rw [hshown]
    rfl
  refine ⟨_, by rw [toVariables, hmap]; rfl, fun x => ?_⟩
  simp only [List.mem_filterMap, List.mem_map]
  constructor
  · rintro ⟨_, ⟨g, -, rfl⟩, hx⟩
    obtain ⟨v, hv, rfl⟩ := Option.map_eq_some_iff.mp hx
    have hval : valueOf (s.reading g) = .ok (some v) := (hshown g).trans (congrArg _ hv)
    exact ⟨g, rfl, shows_iff.mpr hval⟩
  · rintro ⟨g, hname, hv⟩
    refine ⟨_, ⟨g, Gauge.mem_all g, rfl⟩, Option.map_eq_some_iff.mpr ⟨x.2, ?_, ?_⟩⟩
    · exact Except.ok.inj ((hshown g).symm.trans (shows_iff.mp hv))
    · rw [← hname]

theorem toVariables_of_not_convertible {s : Snapshot} (h : ¬ s.Convertible) :
    ∃ f, s.toVariables = .error f := by
  cases hs : s.toVariables with
  | error f => exact ⟨f, rfl⟩
  | ok shown =>
    refine absurd (convertible_iff.mpr fun g => ?_) h
    obtain ⟨values, hv, -⟩ := bind_eq_ok hs
    obtain ⟨_, hg⟩ := exists_of_mapM_ok hv (Gauge.mem_all g)
    obtain ⟨shown?, hg, -⟩ := bind_eq_ok hg
    exact ⟨shown?, hg⟩

end Snapshot

namespace Gauge

theorem variableName_ne_timestamp (g : Gauge) : g.variableName ≠ "timestamp" := by
  cases g <;> decide

theorem nodup_variableNames : (all.map variableName).Nodup := by
  decide +kernel

theorem variableName_injective {g g' : Gauge} (h : g.variableName = g'.variableName) : g = g' :=
  List.inj_on_of_nodup_map nodup_variableNames (mem_all g) (mem_all g') h

end Gauge

namespace Frame

/-- What is put into a frame is found there, if nothing else of its name is put. -/
theorem find?_foldl_put_of_mem {bindings : List Binding} {b : Binding} (hb : b ∈ bindings)
    (h : ∀ a ∈ bindings, a.name = b.name → a = b) (f : Frame) :
    (bindings.foldl put f).find? b.name = some b := by
  have hlast : Frame.find? bindings.reverse b.name = some b :=
    find?_eq_of_mem (List.mem_reverse.mpr hb) fun a ha => h a (List.mem_reverse.mp ha)
  rw [find?_foldl_put, hlast, Option.some_or]

theorem put_eq_self {f : Frame} {b : Binding} (h : f.find? b.name = some b) : f.put b = f := by
  induction f with
  | nil => cases h
  | cons a f ih =>
    rw [find?_cons] at h
    unfold put
    split at h
    · next ha =>
      cases h
      rw [if_pos rfl]
    · next ha => rw [if_neg ha, ih h]

theorem foldl_put_eq_self {f : Frame} {bindings : List Binding}
    (h : ∀ b ∈ bindings, f.find? b.name = some b) : bindings.foldl put f = f := by
  induction bindings with
  | nil => rfl
  | cons b bindings ih =>
    rw [List.foldl_cons, put_eq_self (h b List.mem_cons_self)]
    exact ih fun a ha => h a (List.mem_cons_of_mem _ ha)

end Frame

namespace Context

/-- One context after another in which the readings of a snapshot and the time are shown, and nothing
else is new. -/
structure Displays (c : Context) (s : Snapshot) (now : Float) (c' : Context) : Prop where
  gauges : ∀ (g : Gauge) v, (s.reading g).Shows v →
    c'.globals.find? g.variableName = some (systemBinding g.variableName v)
  time : c'.globals.find? "timestamp" = some (systemBinding "timestamp" (.number now))
  others : ∀ name, name ≠ "timestamp" →
    (∀ g : Gauge, s.reading g ≠ .null → name ≠ g.variableName) →
    c'.globals.find? name = c.globals.find? name
  locals : c'.locals = c.locals
  depth : c'.depth = c.depth
  stats : c'.stats = c.stats
  botName : c'.botName = c.botName
  version : c'.version = c.version

variable {s : Snapshot} {shown : List (String × Value)}

theorem displays_showing
    (hs : ∀ x, x ∈ shown ↔ ∃ g : Gauge, x.1 = g.variableName ∧ (s.reading g).Shows x.2)
    (c : Context) (now : Float) : c.Displays s now (c.showing shown now) where
  gauges g v hv := by
    have hmem : (g.variableName, v) ∈ shown := (hs _).mpr ⟨g, rfl, hv⟩
    rw [showing_eq]
    refine Frame.find?_foldl_put_of_mem (b := systemBinding g.variableName v) ?_ ?_ _
    · exact List.mem_map.mpr ⟨_, List.mem_append_left _ hmem, rfl⟩
    · intro a ha hn
      obtain ⟨x, hx, rfl⟩ := List.mem_map.mp ha
      rcases List.mem_append.mp hx with hx | hx
      · obtain ⟨g', hg', hv'⟩ := (hs x).mp hx
        obtain rfl : g' = g := Gauge.variableName_injective (hg'.symm.trans hn)
        have hval := (Snapshot.shows_iff.mp hv').symm.trans (Snapshot.shows_iff.mp hv)
        rw [hg', Option.some.inj (Except.ok.inj hval)]
      · rw [List.mem_singleton.mp hx] at hn
        exact absurd hn.symm g.variableName_ne_timestamp
  time := timestamp_showing c shown now
  others name ht hg := by
    refine globals_showing ht fun x hx he => ?_
    obtain ⟨g, hname, hv⟩ := (hs x).mp hx
    refine hg g (fun hn => ?_) (he.symm.trans hname)
    rw [hn] at hv
    exact Json.not_shows_null hv
  locals := by rw [showing_eq]
  depth := by rw [showing_eq]; rfl
  stats := by rw [showing_eq]
  botName := by rw [showing_eq]
  version := by rw [showing_eq]

theorem run_update_of_not_convertible (h : ¬ s.Convertible) (now : Float) (c : Context) :
    ∃ f, (Action.update (.snapshot s) now).run c = .error (.fault f) c := by
  obtain ⟨f, hf⟩ := s.toVariables_of_not_convertible h
  exact ⟨f, Action.run_update_error hf⟩

/-- The variables to write depend on the snapshot alone. -/
theorem run_update_of_convertible (h : s.Convertible) :
    ∃ shown, (∀ now c, (Action.update (.snapshot s) now).run c = .ok () (c.showing shown now)) ∧
      ∀ x, x ∈ shown ↔ ∃ g : Gauge, x.1 = g.variableName ∧ (s.reading g).Shows x.2 := by
  obtain ⟨shown, hvars, hs⟩ := s.toVariables_of_convertible h
  exact ⟨shown, fun now c => Action.run_update_ok hvars, hs⟩

theorem run_update_displays (h : s.Convertible) (now : Float) (c : Context) :
    ∃ c', (Action.update (.snapshot s) now).run c = .ok () c' ∧ c.Displays s now c' := by
  obtain ⟨shown, hrun, hs⟩ := run_update_of_convertible h
  exact ⟨_, hrun now c, displays_showing hs c now⟩

/-- An update that is made again writes nothing anew but the time. -/
theorem showing_showing
    (hs : ∀ x, x ∈ shown ↔ ∃ g : Gauge, x.1 = g.variableName ∧ (s.reading g).Shows x.2)
    (c : Context) (now now' : Float) :
    (c.showing shown now).showing shown now' =
      (c.showing shown now).writeSystem "timestamp" (.number now') := by
  have hd := displays_showing hs c now
  generalize c.showing shown now = c' at hd
  have hkept : (shown.map fun x => systemBinding x.1 x.2).foldl Frame.put c'.globals = c'.globals := by
    refine Frame.foldl_put_eq_self fun b hb => ?_
    obtain ⟨x, hx, rfl⟩ := List.mem_map.mp hb
    obtain ⟨g, hname, hv⟩ := (hs x).mp hx
    rw [hname]
    exact hd.gauges g x.2 hv
  rw [showing_eq, List.map_append, List.foldl_append, hkept]
  rfl

end Context

namespace Snapshot

/-- The readings of the second snapshot, and those of the first that it does not have. -/
def merge (s₁ s₂ : Snapshot) : Snapshot where
  reading g :=
    match s₂.reading g with
    | .null => s₁.reading g
    | j => j

theorem reading_merge_of_null {s₁ s₂ : Snapshot} {g : Gauge} (h : s₂.reading g = .null) :
    (s₁.merge s₂).reading g = s₁.reading g := by
  unfold merge
  dsimp only
  rw [h]

theorem reading_merge {s₁ s₂ : Snapshot} {g : Gauge} (h : s₂.reading g ≠ .null) :
    (s₁.merge s₂).reading g = s₂.reading g := by
  unfold merge
  dsimp only
  split
  · next hn => exact absurd hn h
  · rfl

theorem Convertible.merge {s₁ s₂ : Snapshot} (h₁ : s₁.Convertible) (h₂ : s₂.Convertible) :
    (s₁.merge s₂).Convertible := by
  intro g hn
  by_cases hg : s₂.reading g = .null
  · rw [reading_merge_of_null hg] at hn ⊢
    exact h₁ g hn
  · rw [reading_merge hg]
    exact h₂ g hg

def knownKeys : List String := "position" :: Gauge.all.map Gauge.name

def Nested (fields : List (String × Json)) (g : Gauge) (j : Json) : Prop :=
  g.isAxis = true ∧ ∃ axes, fields.lookup "position" = some (.obj axes) ∧
    axes.lookup g.name = some j

/-- A mapping makes a snapshot. An axis is taken from a nested position that gives it, and all else
from the field of its name. -/
theorem ofJson_obj (fields : List (String × Json)) :
    ∃ s, ofJson (.obj fields) = .ok s ∧
      ∀ g, (∀ j, Nested fields g j → s.reading g = j) ∧
        ((∀ j, ¬ Nested fields g j) → s.reading g = (fields.lookup g.name).getD .null) := by
  refine ⟨⟨fun g =>
    (if g.isAxis then (fields.lookup "position").bind (·.field? g.name) else none).getD
      ((fields.lookup g.name).getD .null)⟩, rfl, fun g => ⟨?_, ?_⟩⟩
  all_goals dsimp only
  · rintro j ⟨haxis, axes, hp, hj⟩
    rw [if_pos haxis, hp, Option.bind_some, Json.field?, hj, Option.getD_some]
  · intro hno
    split
    · next haxis =>
      cases hj : (fields.lookup "position").bind (·.field? g.name) with
      | none => rfl
      | some j =>
        obtain ⟨position, hp, hj⟩ := Option.bind_eq_some_iff.mp hj
        cases position with
        | obj axes => exact absurd ⟨haxis, axes, hp, hj⟩ (hno j)
        | null | bool | int | real | str | arr => cases hj
    · rfl

/-- Keys that are not known make no difference. -/
theorem ofJson_congr {fields fields' : List (String × Json)}
    (h : ∀ key ∈ knownKeys, fields'.lookup key = fields.lookup key) :
    ofJson (.obj fields') = ofJson (.obj fields) := by
  have hgauge : ∀ g : Gauge, fields'.lookup g.name = fields.lookup g.name :=
    fun g => h g.name (List.mem_cons_of_mem _ (List.mem_map_of_mem g.mem_all))
  have hposition : fields'.lookup "position" = fields.lookup "position" :=
    h "position" List.mem_cons_self
  simp only [ofJson, Json.field?, hgauge, hposition]

end Snapshot

namespace Context

variable {c c' c₁ c₂ : Context} {s s₁ s₂ : Snapshot} {now now₁ now₂ : Float}

/-- Of two updates, the second shows its own readings, and those of the first that it does not have
are left. -/
theorem Displays.merge (h₁ : c.Displays s₁ now₁ c₁) (h₂ : c₁.Displays s₂ now₂ c₂) :
    c.Displays (s₁.merge s₂) now₂ c₂ where
  gauges g v hv := by
    by_cases hg : s₂.reading g = .null
    · rw [Snapshot.reading_merge_of_null hg] at hv
      rw [h₂.others _ g.variableName_ne_timestamp fun g' hg' he => ?_, h₁.gauges g v hv]
      rw [Gauge.variableName_injective he] at hg
      exact hg' hg
    · rw [Snapshot.reading_merge hg] at hv
      exact h₂.gauges g v hv
  time := h₂.time
  others name ht hg := by
    have hone : ∀ g : Gauge, s₁.reading g ≠ .null → name ≠ g.variableName := by
      intro g hn
      refine hg g ?_
      by_cases hg' : s₂.reading g = .null
      · rwa [Snapshot.reading_merge_of_null hg']
      · rwa [Snapshot.reading_merge hg']
    have htwo : ∀ g : Gauge, s₂.reading g ≠ .null → name ≠ g.variableName := by
      intro g hn
      refine hg g ?_
      rwa [Snapshot.reading_merge hn]
    exact (h₂.others name ht htwo).trans (h₁.others name ht hone)
  locals := h₂.locals.trans h₁.locals
  depth := h₂.depth.trans h₁.depth
  stats := h₂.stats.trans h₁.stats
  botName := h₂.botName.trans h₁.botName
  version := h₂.version.trans h₁.version

/-- What is displayed is fixed by what was before, by the readings and by the time. -/
theorem Displays.unique (hs : s.Convertible) (h : c.Displays s now c₁) (h' : c.Displays s now c₂)
    (height : Nat) (name : String) : c₁.bindingAt? height name = c₂.bindingAt? height name := by
  cases height with
  | succ height => rw [bindingAt?_succ, bindingAt?_succ, h.locals, h'.locals]
  | zero =>
    rw [bindingAt?_zero, bindingAt?_zero]
    by_cases ht : name = "timestamp"
    · rw [ht, h.time, h'.time]
    · by_cases hg : ∃ g : Gauge, s.reading g ≠ .null ∧ name = g.variableName
      · obtain ⟨g, hn, rfl⟩ := hg
        obtain ⟨v, hv⟩ := hs g hn
        rw [h.gauges g v hv, h'.gauges g v hv]
      · have hno : ∀ g : Gauge, s.reading g ≠ .null → name ≠ g.variableName :=
          fun g hn he => hg ⟨g, hn, he⟩
        rw [h.others name ht hno, h'.others name ht hno]

theorem run_update_data {fields : List (String × Json)}
    (hs : Snapshot.ofJson (.obj fields) = .ok s) (now : Float) (c : Context) :
    (Action.update (.data (.obj fields)) now).run c = (Action.update (.snapshot s) now).run c := by
  have hgiven : (Readings.data (.obj fields)).snapshot? = .ok (some s) := by
    change (Snapshot.ofJson (.obj fields)).map some = _
    rw [hs]
    rfl
  have hvars : (Readings.data (.obj fields)).variables = (Readings.snapshot s).variables := by
    unfold Readings.variables
    rw [hgiven]
    rfl
  change Edit.update _ now c = Edit.update _ now c
  rw [Edit.update, hvars]
  rfl

/-- An update shows every reading that was taken or changes nothing. Of a mapping it sees the fields
of gauges, a nested position before those. Two updates leave what one with the readings of both does,
so that an update made again changes the time alone. -/
theorem update_upserts (c : Context) (now : Float) :
    (∀ s : Snapshot,
      (¬ s.Convertible → ∃ f, (Action.update (.snapshot s) now).run c = .error (.fault f) c) ∧
      (s.Convertible →
        ∃ c', (Action.update (.snapshot s) now).run c = .ok () c' ∧ c.Displays s now c')) ∧
    (∀ fields, ∃ s,
      (Action.update (.data (.obj fields)) now).run c = (Action.update (.snapshot s) now).run c ∧
      ∀ g, (∀ j, Snapshot.Nested fields g j → s.reading g = j) ∧
        ((∀ j, ¬ Snapshot.Nested fields g j) →
          s.reading g = (fields.lookup g.name).getD .null)) ∧
    (∀ fields fields' : List (String × Json),
      (∀ key ∈ Snapshot.knownKeys, fields'.lookup key = fields.lookup key) →
      (Action.update (.data (.obj fields')) now).run c =
        (Action.update (.data (.obj fields)) now).run c) ∧
    (∀ (s₁ s₂ : Snapshot) (now' : Float), s₁.Convertible → s₂.Convertible →
      ∃ c₁ c₂ c', (Action.update (.snapshot s₁) now).run c = .ok () c₁ ∧
        (Action.update (.snapshot s₂) now').run c₁ = .ok () c₂ ∧
        (Action.update (.snapshot (s₁.merge s₂)) now').run c = .ok () c' ∧
        (∀ height name, c₂.bindingAt? height name = c'.bindingAt? height name)) ∧
    ∀ (s : Snapshot) (now' : Float) (c' : Context),
      (Action.update (.snapshot s) now).run c = .ok () c' →
      (Action.update (.snapshot s) now').run c' =
        .ok () (c'.writeSystem "timestamp" (.number now')) := by
  refine ⟨fun s => ⟨fun hs => run_update_of_not_convertible hs now c,
    fun hs => run_update_displays hs now c⟩, fun fields => ?_, fun fields fields' hkeys => ?_,
    fun s₁ s₂ now' hs₁ hs₂ => ?_, fun s now' c' hrun => ?_⟩
  · obtain ⟨s, hs, hreading⟩ := Snapshot.ofJson_obj fields
    exact ⟨s, run_update_data hs now c, hreading⟩
  · obtain ⟨s, hs, -⟩ := Snapshot.ofJson_obj fields
    have hs' := (Snapshot.ofJson_congr hkeys).trans hs
    rw [run_update_data hs', run_update_data hs]
  · obtain ⟨c₁, hrun₁, hd₁⟩ := run_update_displays hs₁ now c
    obtain ⟨c₂, hrun₂, hd₂⟩ := run_update_displays hs₂ now' c₁
    obtain ⟨c', hrun', hd'⟩ := run_update_displays (hs₁.merge hs₂) now' c
    exact ⟨c₁, c₂, c', hrun₁, hrun₂, hrun', (hd₁.merge hd₂).unique (hs₁.merge hs₂) hd'⟩
  · by_cases hs : s.Convertible
    · obtain ⟨shown, hrun', hshown⟩ := run_update_of_convertible hs
      rw [hrun'] at hrun
      cases hrun
      rw [hrun', showing_showing hshown]
    · obtain ⟨f, hf⟩ := run_update_of_not_convertible hs now c
      rw [hf] at hrun
      cases hrun

end Context

end AgentScript

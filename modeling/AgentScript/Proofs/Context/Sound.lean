import AgentScript.Proofs.Context.Height
import Mathlib.Data.List.Nodup

/-! What holds of every context that a fresh one can come to: how its frames are kept, that readonly
globals are there to stay, and what its figures count. -/
namespace AgentScript

namespace Frame

/-- Every name stands once in a frame, and every variable has the scope of the frame. -/
structure Sound (scope : Scope) (f : Frame) : Prop where
  names : (f.map (·.name)).Nodup
  scopes : ∀ b ∈ f, b.scope = scope

variable {scope : Scope} {f : Frame}

theorem sound_nil (scope : Scope) : Frame.Sound scope [] :=
  ⟨List.nodup_nil, fun _ hb => nomatch hb⟩

theorem names_put (f : Frame) (b : Binding) :
    (f.put b).map (·.name) =
      if b.name ∈ f.map (·.name) then f.map (·.name) else f.map (·.name) ++ [b.name] := by
  induction f with
  | nil => rfl
  | cons a f ih =>
    unfold put
    by_cases ha : a.name = b.name
    · simp [ha]
    · rw [if_neg ha, List.map_cons, ih]
      simp only [List.map_cons, List.mem_cons, Ne.symm ha, false_or]
      split <;> rfl

theorem mem_put {f : Frame} {a b : Binding} (h : a ∈ f.put b) : a = b ∨ a ∈ f := by
  induction f with
  | nil => exact .inl (List.mem_singleton.mp h)
  | cons x f ih =>
    unfold put at h
    split at h
    · rcases List.mem_cons.mp h with h | h
      · exact .inl h
      · exact .inr (List.mem_cons_of_mem _ h)
    · rcases List.mem_cons.mp h with rfl | h
      · exact .inr List.mem_cons_self
      · exact (ih h).imp_right (List.mem_cons_of_mem _)

theorem nodup_put {f : Frame} (h : (f.map (·.name)).Nodup) (b : Binding) :
    ((f.put b).map (·.name)).Nodup := by
  rw [names_put]
  split
  · exact h
  · next hn =>
    rw [← List.concat_eq_append]
    exact List.Nodup.concat hn h

theorem Sound.put (h : f.Sound scope) {b : Binding} (hb : b.scope = scope) :
    (f.put b).Sound scope where
  names := nodup_put h.names b
  scopes a ha := by
    rcases mem_put ha with rfl | ha
    · exact hb
    · exact h.scopes a ha

theorem Sound.foldl_put (h : f.Sound scope) {bindings : List Binding}
    (hb : ∀ b ∈ bindings, b.scope = scope) : (bindings.foldl Frame.put f).Sound scope := by
  induction bindings generalizing f with
  | nil => exact h
  | cons b bindings ih =>
    have hput := h.put (hb b List.mem_cons_self)
    exact ih hput fun a ha => hb a (List.mem_cons_of_mem _ ha)

/-- What is found under a name is the one variable that carries it. -/
theorem Sound.find?_eq_some_iff (h : f.Sound scope) {name : String} {b : Binding} :
    f.find? name = some b ↔ b ∈ f ∧ b.name = name := by
  constructor
  · exact fun hf => ⟨List.mem_of_find?_eq_some hf, name_of_find? hf⟩
  · rintro ⟨hb, rfl⟩
    exact find?_eq_of_mem hb fun a ha => List.inj_on_of_nodup_map h.names ha hb

/-- As no name stands twice, it does not matter from which end a frame is searched. -/
theorem Sound.find?_reverse (h : f.Sound scope) (name : String) :
    Frame.find? f.reverse name = f.find? name := by
  have hnames : ((f.reverse).map (·.name)).Nodup := by
    rw [List.map_reverse]
    exact List.nodup_reverse.mpr h.names
  have hr : Frame.Sound scope f.reverse := ⟨hnames, fun b hb => h.scopes b (List.mem_reverse.mp hb)⟩
  refine Option.ext fun b => ?_
  rw [hr.find?_eq_some_iff, h.find?_eq_some_iff, List.mem_reverse]

/-- Names that are readonly in one frame are so in the other, with whatever values. -/
def Retains (f g : Frame) : Prop :=
  ∀ name b, f.find? name = some b → b.readonly = true →
    ∃ b', g.find? name = some b' ∧ b'.readonly = true

theorem Guards.retains {f g : Frame} (h : f.Guards g) : f.Retains g :=
  fun name b hb hr => ⟨b, h name b hb hr, hr⟩

theorem Retains.trans {f g h : Frame} (hfg : f.Retains g) (hgh : g.Retains h) : f.Retains h := by
  intro name b hb hr
  obtain ⟨b', hb', hr'⟩ := hfg name b hb hr
  exact hgh name b' hb' hr'

theorem retains_put (f : Frame) {b : Binding} (hb : b.readonly = true) : f.Retains (f.put b) := by
  intro name a ha hr
  rw [find?_put]
  split
  · exact ⟨b, rfl, hb⟩
  · exact ⟨a, ha, hr⟩

theorem retains_foldl_put (f : Frame) {bindings : List Binding}
    (h : ∀ b ∈ bindings, b.readonly = true) : f.Retains (bindings.foldl put f) := by
  induction bindings generalizing f with
  | nil => exact (Guards.refl f).retains
  | cons b bindings ih =>
    have hput : f.Retains (f.put b) := retains_put f (h b List.mem_cons_self)
    exact hput.trans (ih (f.put b) fun a ha => h a (List.mem_cons_of_mem _ ha))

end Frame

namespace Context

variable {c c' : Context} {a : Action}

def builtinNames : List String := ["bot_name", "version", "pi", "timestamp"]

/-- How the frames of a context are kept. -/
structure Sound (c : Context) : Prop where
  builtins : ∀ name ∈ builtinNames, ∃ b, c.globals.find? name = some b ∧ b.readonly = true
  globals : c.globals.Sound .global
  locals : ∀ f ∈ c.locals, f.Sound .local

theorem sound_fresh (botName version : String) (now : Float) :
    (fresh botName version now).Sound where
  builtins := by simp [builtinNames, fresh, systemBinding, Frame.find?]
  globals := ⟨by simp [fresh, systemBinding], by simp [fresh, systemBinding]⟩
  locals _ hf := nomatch hf

def SoundFrames (c : Context) : Prop :=
  ∀ (height : Nat) (f : Frame), c.frames.reverse[height]? = some f → f.Sound (scopeAt height)

theorem soundFrames_iff :
    c.SoundFrames ↔ c.globals.Sound .global ∧ ∀ f ∈ c.locals, f.Sound .local := by
  unfold SoundFrames
  rw [reverse_frames]
  constructor
  · intro h
    refine ⟨h 0 _ rfl, fun f hf => ?_⟩
    obtain ⟨i, hi⟩ := List.getElem?_of_mem (List.mem_reverse.mpr hf)
    exact h (i + 1) f hi
  · rintro ⟨hg, hl⟩ height f hf
    cases height with
    | zero =>
      cases hf
      exact hg
    | succ height => exact hl f (List.mem_reverse.mp (List.mem_of_getElem? hf))

theorem PutAt.soundFrames {height : Nat} {b : Binding} (h : c.PutAt height b c')
    (hb : b.scope = scopeAt height) (hc : c.SoundFrames) : c'.SoundFrames := by
  intro i f hf
  rw [h.frames] at hf
  by_cases hi : height = i
  · subst hi
    rw [List.getElem?_modify_eq] at hf
    obtain ⟨g, hg, rfl⟩ := Option.map_eq_some_iff.mp hf
    exact (hc height g hg).put hb
  · rw [List.getElem?_modify_ne _ _ hi] at hf
    exact hc i f hf

/-- A variable that takes no readonly one's place leaves the readonly globals alone. -/
theorem PutAt.guards_globals {height : Nat} {b : Binding} (h : c.PutAt height b c')
    (hfree : ∀ a, c.bindingAt? height b.name = some a → a.readonly = false) :
    c.globals.Guards c'.globals := by
  intro name a ha hr
  rw [← bindingAt?_zero] at ha ⊢
  rw [h.bindingAt?_other, ha]
  rintro ⟨rfl, rfl⟩
  rw [hfree a ha] at hr
  cases hr

inductive Effect (c : Context) : Action → Context → Prop
  | refused {a : Action} {t : Trouble} (h : a.run c = .error t c) : Effect c a c
  | define {name : String} {v : Value} {scope : Scope} {readonly : Bool} {loc : Location}
      {c' : Context} (h : (Action.define name v scope readonly loc).run c = .ok () c')
      (hput : c.PutAt (c.target scope) ⟨name, v, scopeAt (c.target scope), readonly, loc⟩ c')
      (hfree : ∀ b, c.bindingAt? (c.target scope) name = some b → b.readonly = false)
      (hstats : c'.stats = { c.stats with definitions := c.stats.definitions + 1 }) :
      Effect c (.define name v scope readonly loc) c'
  | set {name : String} {v : Value} {height : Nat} {b : Binding} {c' : Context}
      (hm : c.Means name height b) (hr : b.readonly = false)
      (hput : c.PutAt height { b with value := v } c') (hstats : c'.stats = c.stats) :
      Effect c (.set name v) c'
  | enter : Effect c .enter c.enter
  | exit : Effect c .exit c.exit
  | update {given : Readings} {now : Float} (shown : List (String × Value)) :
      Effect c (.update given now) (c.showing shown now)
  | reset {now : Float} : Effect c (.reset now) (c.reset now)
  | note {figure : Figure} : Effect c (.note figure) (c.note figure)

theorem effect_define (c : Context) (name : String) (v : Value) (scope : Scope) (readonly : Bool)
    (loc : Location) :
    Effect c (.define name v scope readonly loc) (c.act (.define name v scope readonly loc)) := by
  rcases c.define_spec name v scope readonly loc with
    ⟨⟨b, hb, hr⟩, -⟩ | ⟨hfree, c', hdef, hput, hstats⟩
  · have hrun := run_define_readonly v scope readonly loc hb hr
    rw [act_of_error hrun]
    exact .refused hrun
  · have hrun : (Action.define name v scope readonly loc).run c = .ok () c' :=
      Action.run_of_ok (congrArg (Except.mapError Trouble.error) hdef)
    rw [act_of_ok hrun]
    exact .define hrun hput hfree hstats

theorem effect_set (c : Context) (name : String) (v : Value) :
    Effect c (.set name v) (c.act (.set name v)) := by
  cases hl : c.lookup? name with
  | none =>
    have hrun := run_set_unbound v (lookup?_eq_none_iff.mp hl)
    rw [act_of_error hrun]
    exact .refused hrun
  | some b =>
    obtain ⟨height, hm⟩ := lookup?_eq_some_iff.mp hl
    cases hr : b.readonly with
    | true =>
      have hrun := run_set_readonly v hm hr
      rw [act_of_error hrun]
      exact .refused hrun
    | false =>
      obtain ⟨c', hset, hput, hstats⟩ := set_of_means hm hr v
      have hrun : (Action.set name v).run c = .ok () c' :=
        Action.run_of_ok (congrArg (Except.mapError Trouble.error) hset)
      rw [act_of_ok hrun]
      exact .set hm hr hput hstats

theorem effect_update (c : Context) (given : Readings) (now : Float) :
    Effect c (.update given now) (c.act (.update given now)) := by
  cases hv : given.variables with
  | error f =>
    have hrun : (Action.update given now).run c = .error (.fault f) c := Action.run_update_error hv
    rw [act_of_error hrun]
    exact .refused hrun
  | ok shown =>
    have hrun : (Action.update given now).run c = .ok () (c.showing shown now) :=
      Action.run_update_ok hv
    rw [act_of_ok hrun]
    exact .update shown

/-- An action changes nothing or has the effect of its kind. -/
theorem effect_act (c : Context) (a : Action) : Effect c a (c.act a) := by
  cases a with
  | define name v scope readonly loc => exact c.effect_define name v scope readonly loc
  | set name v => exact c.effect_set name v
  | update given now => exact c.effect_update given now
  | enter => exact .enter
  | exit => exact .exit
  | reset now => exact .reset
  | note figure => exact .note

theorem note_frames (c : Context) (figure : Figure) :
    (c.note figure).globals = c.globals ∧ (c.note figure).locals = c.locals ∧
      (c.note figure).stats.definitions = c.stats.definitions := by
  cases figure <;> exact ⟨rfl, rfl, rfl⟩

theorem systemBindings {shown : List (String × Value)} {b : Binding}
    (h : b ∈ shown.map fun x => systemBinding x.1 x.2) : b.scope = .global ∧ b.readonly = true := by
  obtain ⟨x, -, rfl⟩ := List.mem_map.mp h
  exact ⟨rfl, rfl⟩

namespace Effect

variable (h : Effect c a c')
include h

theorem soundFrames (hc : c.SoundFrames) : c'.SoundFrames := by
  cases h with
  | refused => exact hc
  | define _ hput _ _ => exact hput.soundFrames rfl hc
  | @set _ v height b _ hm _ hput _ =>
    obtain ⟨f, hf, hb⟩ := Option.bind_eq_some_iff.mp hm.bound
    have hscope : b.scope = scopeAt height := (hc height f hf).scopes b (List.mem_of_find?_eq_some hb)
    exact hput.soundFrames hscope hc
  | enter =>
    obtain ⟨hg, hl⟩ := soundFrames_iff.mp hc
    exact soundFrames_iff.mpr ⟨hg, List.forall_mem_cons.mpr ⟨Frame.sound_nil _, hl⟩⟩
  | exit =>
    obtain ⟨hg, hl⟩ := soundFrames_iff.mp hc
    exact soundFrames_iff.mpr ⟨hg, fun f hf => hl f (List.mem_of_mem_drop hf)⟩
  | update shown =>
    obtain ⟨hg, hl⟩ := soundFrames_iff.mp hc
    rw [showing_eq]
    exact soundFrames_iff.mpr ⟨hg.foldl_put fun b hb => (systemBindings hb).1, hl⟩
  | @reset now =>
    have hfresh := sound_fresh c.botName c.version now
    exact soundFrames_iff.mpr ⟨hfresh.globals, hfresh.locals⟩
  | @note figure =>
    obtain ⟨hg, hl, -⟩ := c.note_frames figure
    rw [soundFrames_iff, hg, hl]
    exact soundFrames_iff.mp hc

/-- Only updates and resets change the values of readonly globals. -/
theorem guards (hu : ∀ given now, a ≠ .update given now) (hr : ∀ now, a ≠ .reset now) :
    c.globals.Guards c'.globals := by
  cases h with
  | define _ hput hfree _ => exact hput.guards_globals hfree
  | @set name v height b _ hm hfree hput _ =>
    refine hput.guards_globals fun b' hb' => ?_
    have hname : b.name = name := name_of_means hm
    rw [hname, hm.bound] at hb'
    cases hb'
    exact hfree
  | update => exact absurd rfl (hu _ _)
  | reset => exact absurd rfl (hr _)
  | @note figure =>
    rw [(c.note_frames figure).1]
    exact .refl _
  | refused | enter | exit => exact .refl _

/-- Only a reset takes readonly globals away. -/
theorem retains (hr : ∀ now, a ≠ .reset now) : c.globals.Retains c'.globals := by
  cases a with
  | update given now =>
    cases h with
    | refused => exact (Frame.Guards.refl _).retains
    | update shown =>
      rw [showing_eq]
      exact Frame.retains_foldl_put _ fun b hb => (systemBindings hb).2
  | _ => exact (h.guards (fun _ _ => nofun) hr).retains

theorem sound (hc : c.Sound) : c'.Sound := by
  obtain ⟨hg, hl⟩ := soundFrames_iff.mp (h.soundFrames (soundFrames_iff.mpr ⟨hc.globals, hc.locals⟩))
  refine ⟨fun name hn => ?_, hg, hl⟩
  by_cases hr : ∃ now, a = .reset now
  · obtain ⟨now, rfl⟩ := hr
    cases h with
    | refused hrun => cases hrun
    | reset => exact (sound_fresh _ _ _).builtins name hn
  · obtain ⟨b, hb, hb'⟩ := hc.builtins name hn
    exact h.retains (fun now he => hr ⟨now, he⟩) name b hb hb'

end Effect

theorem Sound.since (hc : c.Sound) (actions : List Action) : (c.since actions).Sound := by
  induction actions with
  | nil => exact hc
  | cons a earlier ih => exact (effect_act _ a).sound ih

theorem since_retains {actions : List Action} (hr : ∀ now, .reset now ∉ actions) :
    c.globals.Retains (c.since actions).globals := by
  induction actions with
  | nil => exact (Frame.Guards.refl _).retains
  | cons a earlier ih =>
    have hlast := (effect_act (c.since earlier) a).retains fun now he =>
      hr now (he ▸ List.mem_cons_self)
    exact (ih fun now hn => hr now (List.mem_cons_of_mem _ hn)).trans hlast

theorem since_guards {actions : List Action} (hu : ∀ given now, .update given now ∉ actions)
    (hr : ∀ now, .reset now ∉ actions) : c.globals.Guards (c.since actions).globals := by
  induction actions with
  | nil => exact .refl _
  | cons a earlier ih =>
    have hlast := (effect_act (c.since earlier) a).guards
      (fun given now he => hu given now (he ▸ List.mem_cons_self))
      (fun now he => hr now (he ▸ List.mem_cons_self))
    exact (ih (fun given now hn => hu given now (List.mem_cons_of_mem _ hn))
      fun now hn => hr now (List.mem_cons_of_mem _ hn)).trans hlast

theorem Sound.frame (hc : c.Sound) {f : Frame} (hf : f ∈ c.frames) : ∃ scope, f.Sound scope := by
  rcases List.mem_append.mp hf with hf | hf
  · exact ⟨_, hc.locals f hf⟩
  · rw [List.mem_singleton.mp hf]
    exact ⟨_, hc.globals⟩

/-- How many scopes are open after some actions, the last of which stands first, and after so many
more exits. An exit closes the scope that was opened last, if one is open at all, and a reset closes
all of them. -/
def openScopes : Nat → List Action → Nat
  | _, [] => 0
  | 0, .enter :: earlier => openScopes 0 earlier + 1
  | exits + 1, .enter :: earlier => openScopes exits earlier
  | exits, .exit :: earlier => openScopes (exits + 1) earlier
  | _, .reset _ :: _ => 0
  | exits, _ :: earlier => openScopes exits earlier

theorem depth_since (hc : c.depth = 0) (actions : List Action) (exits : Nat) :
    (c.since actions).depth - exits = openScopes exits actions := by
  induction actions generalizing exits with
  | nil =>
    change c.depth - exits = 0
    rw [hc, Nat.zero_sub]
  | cons a earlier ih =>
    change ((c.since earlier).act a).depth - exits = _
    have h := (c.since earlier).effect_act a
    generalize (c.since earlier).act a = c' at h
    cases h with
    | enter =>
      cases exits with
      | zero => exact congrArg (· + 1) (ih 0)
      | succ exits => exact (Nat.add_sub_add_right _ 1 exits).trans (ih exits)
    | exit =>
      have hd : (c.since earlier).exit.depth = (c.since earlier).depth - 1 := List.length_drop
      rw [hd, Nat.sub_sub, Nat.add_comm]
      exact ih (exits + 1)
    | reset => exact Nat.zero_sub exits
    | define _ hput _ _ =>
      rw [hput.depth_eq]
      exact ih exits
    | set _ _ hput _ =>
      rw [hput.depth_eq]
      exact ih exits
    | update shown =>
      rw [showing_eq]
      exact ih exits
    | @note figure =>
      rw [depth, (note_frames _ figure).2.1]
      exact ih exits
    | refused hrun =>
      cases a with
      | define | set | update => exact ih exits
      | enter | exit | reset | note => cases hrun

/-- An exit with no scope open, two enters and an exit. -/
example : openScopes 0 [.exit, .enter, .enter, .exit] = 1 := rfl

/-- How many definitions were made since the last reset among some actions, the last of which stands
first. -/
def definitionsSince (c : Context) : List Action → Nat
  | [] => 0
  | .define name v scope readonly loc :: earlier =>
    match (Action.define name v scope readonly loc).run (c.since earlier) with
    | .ok _ _ => c.definitionsSince earlier + 1
    | .error _ _ => c.definitionsSince earlier
  | .reset _ :: _ => 0
  | _ :: earlier => c.definitionsSince earlier

theorem definitions_since (hc : c.stats.definitions = 0) (actions : List Action) :
    (c.since actions).stats.definitions = c.definitionsSince actions := by
  induction actions with
  | nil => exact hc
  | cons a earlier ih =>
    change ((c.since earlier).act a).stats.definitions = _
    have h := (c.since earlier).effect_act a
    generalize (c.since earlier).act a = c' at h
    cases h with
    | define hrun _ _ hstats =>
      rw [definitionsSince, hrun, hstats]
      exact congrArg (· + 1) ih
    | refused hrun =>
      cases a with
      | define =>
        rw [definitionsSince, hrun]
        exact ih
      | set | update => exact ih
      | enter | exit | reset | note => cases hrun
    | @set _ _ _ _ _ _ _ _ hstats =>
      rw [hstats]
      exact ih
    | update shown =>
      rw [showing_eq]
      exact ih
    | reset => rfl
    | @note figure =>
      rw [(note_frames _ figure).2.2]
      exact ih
    | enter | exit => exact ih

/-- What holds of every context that some actions, failing ones among them, make of a fresh one. The
built-in names are bound and readonly, a name leads to the one variable of a frame that carries it,
and variables are marked with the scope of their frame. The figures count the definitions made since
the last reset and the scopes still open. What is readonly among the globals stays so until a reset,
and stays the same until an update. -/
theorem reached_sound (botName version : String) (now : Float) (later earlier : List Action) :
    let start := fresh botName version now
    let c := start.since earlier
    c.Sound ∧
      (∀ f ∈ c.frames, ∀ name b, f.find? name = some b ↔ b ∈ f ∧ b.name = name) ∧
      c.stats.definitions = start.definitionsSince earlier ∧
      c.depth = openScopes 0 earlier ∧
      ((∀ now, .reset now ∉ later) → ∀ name b, c.globals.find? name = some b → b.readonly = true →
        ∃ b', (c.since later).globals.find? name = some b' ∧ b'.readonly = true ∧
          ((∀ given now, .update given now ∉ later) → b' = b)) := by
  intro start c
  have hsound : c.Sound := (sound_fresh botName version now).since earlier
  refine ⟨hsound, fun f hf name b => ?_, definitions_since rfl earlier, depth_since rfl earlier 0, ?_⟩
  · obtain ⟨scope, hs⟩ := hsound.frame hf
    exact hs.find?_eq_some_iff
  · intro hr name b hb hro
    obtain ⟨b', hb', hro'⟩ := since_retains hr name b hb hro
    refine ⟨b', hb', hro', fun hu => ?_⟩
    exact Option.some.inj (hb'.symm.trans (since_guards hu hr name b hb hro))

end Context

end AgentScript

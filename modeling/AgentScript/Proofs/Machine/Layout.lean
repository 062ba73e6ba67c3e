import AgentScript.Proofs.Bot.Silent
import AgentScript.Proofs.Machine.Recast
import AgentScript.Proofs.Syntax.Layout

/-! Programs that are equal up to places do the same. An error that a run ends with has the same cause
in both, and where all places are in a source, its message differs in nothing but the place. -/
namespace AgentScript

variable {β : Type}

/-- Causes that a run finds by itself. -/
def Cause.found (c : Cause) : Bool := c.own || !c.nameless

theorem Cause.heading_of_found {c : Cause} (h : c.found) :
    c.kind.heading? = some "Execution error" := by
  cases c with
  | unexpected wanted token => cases h
  | stated kind text => cases h
  | _ => rfl

theorem Cause.ne_refused_of_found {c : Cause} (h : c.found) (request : Request) (text : String) :
    c ≠ .refused request text := by
  intro hc
  rw [hc] at h
  cases h

/-- Only places in a source are related: lines and columns are counted from one. -/
def Located (R : Location → Location → Prop) : Prop :=
  ∀ l l', R l l' → (0 < l.line ∧ 0 < l.column) ∧ 0 < l'.line ∧ 0 < l'.column

theorem located_across (source source' : String) : Located (Program.Across source source') :=
  fun _ _ h => ⟨h.1.positive, h.2.positive⟩

variable {R : Location → Location → Prop}

/-- The same error, without a place in both runs or at related places. -/
inductive ErrorMoved (R : Location → Location → Prop) (c : Cause) : ScriptError → ScriptError → Prop
  | bare : ErrorMoved R c { cause := c } { cause := c }
  | placed {l l' : Location} (h : R l l') : ErrorMoved R c (.locatedAt c l) (.locatedAt c l')

/-- The same message, or one that tells a related place. -/
inductive MessageMoved (R : Location → Location → Prop) : String → String → Prop
  | same (s : String) : MessageMoved R s s
  | placed (message : String) {l l' : Location} (h : R l l') :
    MessageMoved R
      ("Execution error at line " ++ toString l.line ++ ", column " ++ toString l.column ++ ": "
        ++ message)
      ("Execution error at line " ++ toString l'.line ++ ", column " ++ toString l'.column ++ ": "
        ++ message)

structure SameCause (R : Location → Location → Prop) (e e' : ScriptError) : Prop where
  cause : e'.cause = e.cause
  found : e.cause.found
  moved : Located R → ErrorMoved R e.cause e e'

theorem ErrorMoved.locate (hR : Located R) {c : Cause} {e e' : ScriptError}
    (h : ErrorMoved R c e e') {l l' : Location} (hl : R l l') :
    ErrorMoved R c (e.locate l) (e'.locate l') := by
  cases h with
  | bare => exact .placed hl
  | @placed k k' hk =>
    obtain ⟨⟨hline, -⟩, hline', -⟩ := hR _ _ hk
    have hkept : (ScriptError.locatedAt c k).locate l = .locatedAt c k := if_pos (by
      simpa [ScriptError.locatedAt, ScriptError.hasPosition] using hline)
    have hkept' : (ScriptError.locatedAt c k').locate l' = .locatedAt c k' := if_pos (by
      simpa [ScriptError.locatedAt, ScriptError.hasPosition] using hline')
    rw [hkept, hkept']
    exact .placed hk

namespace SameCause

theorem found_by_run {c : Cause} (h : c.found) : SameCause R { cause := c } { cause := c } :=
  ⟨rfl, h, fun _ => .bare⟩

theorem refusal (name : String) {l l' : Location} (hl : R l l') :
    SameCause R (Context.refusal name l) (Context.refusal name l') := by
  refine ⟨rfl, rfl, fun hR => ?_⟩
  obtain ⟨⟨hline, hcolumn⟩, hline', hcolumn'⟩ := hR _ _ hl
  have hplaced : ∀ {l : Location}, 0 < l.line → 0 < l.column →
      Context.refusal name l = .locatedAt (.readonly name) l := by
    intro l hline hcolumn
    rw [Context.refusal, if_neg hline.ne', if_neg hcolumn.ne']
    rfl
  rw [hplaced hline hcolumn, hplaced hline' hcolumn']
  exact .placed hl

theorem locate {e e' : ScriptError} (h : SameCause R e e') {l l' : Location} (hl : R l l') :
    SameCause R (e.locate l) (e'.locate l') := by
  refine ⟨?_, ?_, fun hR => ?_⟩
  · rw [ScriptError.cause_locate, ScriptError.cause_locate, h.cause]
  · rw [ScriptError.cause_locate]
    exact h.found
  · rw [ScriptError.cause_locate]
    exact (h.moved hR).locate hR hl

/-- The messages of two errors with places in sources tell them apart by their places only. -/
theorem text_moved {e e' : ScriptError} (h : SameCause R e e') (hR : Located R) :
    MessageMoved R e.text e'.text := by
  have hheading := Cause.heading_of_found h.found
  have hm := h.moved hR
  generalize e.cause = c at hheading hm
  cases hm with
  | bare => exact .same _
  | @placed l l' hl =>
    obtain ⟨⟨hline, -⟩, hline', -⟩ := hR _ _ hl
    have htext : ∀ {l : Location}, 0 < l.line → (ScriptError.locatedAt c l).text =
        "Execution error at line " ++ toString l.line ++ ", column " ++ toString l.column ++ ": "
          ++ c.message := by
      intro l hline
      unfold ScriptError.text ScriptError.locatedAt
      dsimp only
      rw [hheading]
      exact if_pos hline
    rw [htext hline, htext hline']
    exact .placed c.message hl

end SameCause

section

variable [Port β] [AloofPort β]

def Spares.recasting (R : Location → Location → Prop) {Q : β → Prop} (hQ : Spares Q) :
    Recasting β where
  rename := id
  labels := Eq
  places := R
  definitions _ _ := True
  errors := SameCause R
  foreign _ := False
  bots := Q
  injective := Function.injective_id
  index := rfl
  reading _ _ := rfl
  labelled := by
    intro n n' h
    subst h
    constructor
    · cases n.key <;> rfl
    · rfl
  placed _ := trivial
  nowhere := trivial
  own h := .found_by_run (by rw [Cause.found, h, Bool.true_or])
  undefined _ := .found_by_run rfl
  readonly _ := .found_by_run rfl
  refusal name _ _ := .refusal name
  located h hl := h.locate hl
  reported := False.elim
  relocated _ := id
  settled {e e' b} h hb := by
    have hsame : ∀ {e : ScriptError}, e.cause.found → Port.settle e b = b := fun hf =>
      AloofPort.settle b (Cause.ne_refused_of_found hf)
    have hfound : e'.cause.found := by
      rw [h.cause]
      exact h.found
    rw [hsame h.found, hsame hfound]
    exact ⟨rfl, hb⟩
  keeps := hQ.keeps
  reports operation _ _ _ hb he := (hQ.silent operation hb he).elim

/-- The same context, but for the places of definitions and the texts of the errors on record. -/
abbrev Context.SameButPlaces (c c' : Context) : Prop :=
  c.Recast id (fun _ _ => True) (fun _ _ => True) c'

inductive OutcomeMoved (R : Location → Location → Prop) :
    Except Fault Outcome → Except Fault Outcome → Prop
  | same (r : Except Fault Outcome) : OutcomeMoved R r r
  | error {e e' : ScriptError} (h : SameCause R e e') :
    OutcomeMoved R (.ok (.error e.text)) (.ok (.error e'.text))

theorem Machine.execute_moved {Q : β → Prop} (hQ : Spares Q) {m : Machine β} (hm : Q m.bot)
    {p p' : Program} (h : p.Match R Eq p') :
    OutcomeMoved R (m.execute p).1 (m.execute p').1 ∧
    ∃ c lines, (m.execute p').2 = { (m.execute p).2 with context := c, output := lines } ∧
      (m.execute p).2.context.SameButPlaces c := by
  have hbinding : ∀ b : Binding, b.Recast id (fun _ _ => True) b := fun _ =>
    ⟨rfl, rfl, rfl, rfl, trivial⟩
  have hframe : ∀ f : Frame, f.Recast id (fun _ _ => True) f := fun f =>
    List.forall₂_same.mpr fun b _ => hbinding b
  have hcontext : m.context.Recast id (fun _ _ => True) (hQ.recasting R).Texts m.context :=
    ⟨rfl, rfl, hframe _, List.forall₂_same.mpr fun f _ => hframe f, rfl,
      List.forall₂_same.mpr fun s _ => .same s⟩
  have htied : (hQ.recasting R).tie.Machines m m := ⟨⟨rfl, hm⟩, hcontext, trivial⟩
  obtain ⟨houtcomes, hmachines⟩ := Tie.execute_twins h htied
  constructor
  · cases houtcomes with
    | same _ he =>
      rw [he]
      exact .same _
    | error he he' hee =>
      rw [he.outcome, he'.outcome]
      exact .error hee
  · generalize m.execute p' = whole at hmachines ⊢
    obtain ⟨outcome, m'⟩ := whole
    dsimp only at hmachines ⊢
    obtain ⟨hb, hc, -⟩ := hmachines
    rename_i lines
    refine ⟨_, lines, ?_, hc.imp fun _ _ _ => trivial⟩
    rw [hb.1]
    rfl

theorem OutcomeMoved.message_moved {r r' : Except Fault Outcome} (h : OutcomeMoved R r r')
    (hR : Located R) {s s' : String} (hs : r = .ok (.error s)) (hs' : r' = .ok (.error s')) :
    MessageMoved R s s' := by
  cases h with
  | same =>
    rw [hs] at hs'
    cases hs'
    exact .same s
  | error h =>
    cases hs
    cases hs'
    exact h.text_moved hR

/-- Layout does not change what sources mean: what differs in it only is rejected alike, or becomes
programs that match up to places, which are those of tokens. And what programs do that match up to
places, on a bot that reports no errors of the script, differs in the places of definitions and of
errors only: the bot, the clock, the outcome, the values and the figures are the same, and an error has
the same cause. If all places are in a source, its message tells a related place or is the same. -/
theorem layout_keeps_meaning :
    (∀ source source', bareSource source = bareSource source' →
      Located (Program.Across source source') ∧
      ((∃ t t', Program.ofSource source = .error t ∧ Program.ofSource source' = .error t') ∨
        ∃ p p', Program.ofSource source = .ok p ∧ Program.ofSource source' = .ok p' ∧
          p.Match (Program.Across source source') Eq p')) ∧
    ∀ (β : Type) [Port β] [AloofPort β] (Q : β → Prop), Spares Q →
      ∀ (m : Machine β), Q m.bot →
      ∀ (R : Location → Location → Prop) (p p' : Program), p.Match R Eq p' →
        OutcomeMoved R (m.execute p).1 (m.execute p').1 ∧
        (∃ c lines, (m.execute p').2 = { (m.execute p).2 with context := c, output := lines } ∧
          (m.execute p).2.context.SameButPlaces c) ∧
        (Located R → ∀ s s', (m.execute p).1 = .ok (.error s) →
          (m.execute p').1 = .ok (.error s') → MessageMoved R s s') := by
  constructor
  · intro source source' h
    refine ⟨located_across source source', ?_⟩
    rcases Program.ofSource_layout h with hboth | hneither
    · exact .inr hboth
    · exact .inl hneither
  · intro β _ _ Q hQ m hm R p p' h
    obtain ⟨houtcome, hmachine⟩ := Machine.execute_moved hQ hm h
    exact ⟨houtcome, hmachine, fun hR s s' hs hs' => houtcome.message_moved hR hs hs'⟩

/-- Two layouts of a script that reads what nobody defined. -/
theorem layout_keeps_meaning_missing :
    let source := "missing"
    let source' := "\n  missing # nobody\n"
    let R : Location → Location → Prop := fun l l' => l = ⟨1, 1⟩ ∧ l' = ⟨2, 3⟩
    let m : Machine := .fresh {} {} 0
    let p : Program := .ofStatements [.evaluate ⟨1, 1⟩ (.reference ⟨1, 1⟩ (.word "missing"))]
    let p' : Program := .ofStatements [.evaluate ⟨2, 3⟩ (.reference ⟨2, 3⟩ (.word "missing"))]
    (bareSource source = bareSource source' ∧ Spares Bot.Silent ∧ m.bot.Silent ∧
      p.Match R Eq p' ∧ Located R) ∧
    (Located (Program.Across source source') ∧
      ((∃ t t', Program.ofSource source = .error t ∧ Program.ofSource source' = .error t') ∨
        ∃ p p', Program.ofSource source = .ok p ∧ Program.ofSource source' = .ok p' ∧
          p.Match (Program.Across source source') Eq p')) ∧
    OutcomeMoved R (m.execute p).1 (m.execute p').1 ∧
    (∃ c lines, (m.execute p').2 = { (m.execute p).2 with context := c, output := lines } ∧
      (m.execute p).2.context.SameButPlaces c) ∧
    (∃ s s', (m.execute p).1 = .ok (.error s) ∧ (m.execute p').1 = .ok (.error s') ∧
      MessageMoved R s s') := by
  intro source source' R m p p'
  have hbare : bareSource source = bareSource source' := by
    cbv
  have hsilent : m.bot.Silent := Bot.silent_default
  have hmatch : p.Match R Eq p' :=
    .program _ _ (.statements (.cons (.evaluate ⟨rfl, rfl⟩ (.reference ⟨rfl, rfl⟩ rfl)) .nil))
  have hR : Located R := by
    intro l l' h
    rw [h.1, h.2]
    decide
  obtain ⟨houtcome, hmachine, hmessage⟩ :=
    layout_keeps_meaning.2 Bot Bot.Silent spares_silent m hsilent R p p' hmatch
  have hs : (m.execute p).1 =
      .ok (.error "Execution error at line 1, column 1: Undefined variable: missing") := by
    decide +kernel
  have hs' : (m.execute p').1 =
      .ok (.error "Execution error at line 2, column 3: Undefined variable: missing") := by
    decide +kernel
  exact ⟨⟨hbare, spares_silent, hsilent, hmatch, hR⟩,
    layout_keeps_meaning.1 source source' hbare, houtcome, hmachine, _, _, hs, hs',
    hmessage hR _ _ hs hs'⟩

/-- A node at a place that no source has makes the message lose its place. -/
theorem message_without_place :
    let m : Machine := .fresh {} {} 0
    let p : Program := .ofStatements [.evaluate ⟨1, 1⟩ (.reference ⟨1, 1⟩ (.word "missing"))]
    let p' : Program := .ofStatements [.evaluate ⟨0, 0⟩ (.reference ⟨0, 0⟩ (.word "missing"))]
    Spares Bot.Silent ∧ m.bot.Silent ∧ p.Match (fun _ _ => True) Eq p' ∧
      ∃ s s', (m.execute p).1 = .ok (.error s) ∧ (m.execute p').1 = .ok (.error s') ∧
        ¬ MessageMoved (fun _ _ => True) s s' := by
  intro m p p'
  have hsilent : m.bot.Silent := Bot.silent_default
  have hmatch : p.Match (fun _ _ => True) Eq p' :=
    .program _ _ (.statements (.cons (.evaluate trivial (.reference trivial rfl)) .nil))
  have hs : (m.execute p).1 =
      .ok (.error "Execution error at line 1, column 1: Undefined variable: missing") := by
    decide +kernel
  have hs' : (m.execute p').1 =
      .ok (.error "Execution error: Undefined variable: missing") := by
    decide +kernel
  refine ⟨spares_silent, hsilent, hmatch, _, _, hs, hs', fun h => ?_⟩
  generalize hl : "Execution error at line 1, column 1: Undefined variable: missing" = left at h
  generalize hr : "Execution error: Undefined variable: missing" = right at h
  cases h with
  | same =>
    rw [← hr] at hl
    revert hl
    decide
  | placed message =>
    have htake := congrArg (fun s : String => s.toList.take 16) hr
    simp [String.toList_append] at htake

end

end AgentScript

import AgentScript.CommandLine.Run
import AgentScript.Proofs.CommandLine.Folder
import AgentScript.Proofs.Machine.Scripted

/-! How a command with a stored tree ends. A tree that cannot be read is told, unless a number in it
is too large, and a proper tree runs to an outcome; the misfits that reading lets through may break
the run off. -/
namespace AgentScript

/-- What can be wrong with data: they are blamed, or a number in them is too large. -/
def Fault.OfData (f : Fault) : Prop := CommandLine.Desk.isBlamed f = true ∨ f.kind = .overflow

namespace Json

theorem toFloat_error {v : Json} {f : Fault} (h : v.toFloat = .error f) : f.OfData := by
  unfold toFloat at h
  split at h
  · cases h
  · split at h <;> cases h
    exact .inr rfl
  · cases h
  · split at h <;> cases h
    exact .inl rfl
  · cases h
    exact .inl rfl

theorem toInt_error {v : Json} {f : Fault} (h : v.toInt = .error f) : f.OfData := by
  unfold toInt at h
  split at h
  · cases h
  · cases h
  · split at h
    · cases h
      exact .inl rfl
    · split at h <;> cases h
      exact .inr rfl
  · split at h <;> cases h
    · exact .inl rfl
    · exact .inl rfl
  · cases h
    exact .inl rfl

theorem memberOf_error {family : String} {spellings : List String} {v : Json} {f : Fault}
    (h : memberOf family spellings v = .error f) : f.OfData := by
  unfold memberOf at h
  split at h
  · split at h <;> cases h
    exact .inl rfl
  · cases h
    exact .inl rfl

/-- The values of some fields are at fault for nothing but their data. -/
def FieldsOfData (fields : List FieldTree) : Prop :=
  ∀ field ∈ fields, ∀ f, field.tree = .error f → f.OfData

theorem convertField_error {key : String} {kind : FieldKind} {fields : List FieldTree} {f : Fault}
    (hf : FieldsOfData fields) (h : convertField key kind fields = .error f) : f.OfData := by
  have child : ∀ field, fields.find? (·.key = key) = some field → field.tree = .error f →
      f.OfData := fun field hm ht => hf field (List.mem_of_find?_eq_some hm) f ht
  unfold convertField at h
  split at h
  · cases h
  · cases h
    exact .inl rfl
  · next hm => exact child _ hm h
  · next hm => exact child _ hm h
  · cases h
  · next field hm =>
    cases hx : field.raw.toFloat with
    | error f' =>
      rw [hx] at h
      cases h
      exact toFloat_error hx
    | ok x =>
      rw [hx] at h
      cases h
  · cases h
  · cases h
  · exact memberOf_error h
  · exact memberOf_error h

theorem placeField_error {key : String} {fields : List FieldTree} {f : Fault}
    (h : placeField key fields = .error f) : f.OfData := by
  unfold placeField at h
  split at h
  · exact toInt_error h
  · cases h

theorem convertNode_error {fields : List FieldTree} {f : Fault} (hf : FieldsOfData fields)
    (h : convertNode fields = .error f) : f.OfData := by
  rcases bind_eq_error h with h | ⟨line, -, h⟩
  · exact placeField_error h
  rcases bind_eq_error h with h | ⟨column, -, h⟩
  · exact placeField_error h
  dsimp only at h
  split at h
  · split at h
    · rcases bind_eq_error h with h | ⟨converted, -, h⟩
      · refine mapM_error (fun a f h => ?_) h
        rcases bind_eq_error h with h | ⟨v, -, h⟩
        · exact convertField_error hf h
        · cases h
      · cases h
    · cases h
      exact .inl rfl
  · cases h
    exact .inl rfl

mutual

theorem normalise_error : (v : Json) → ∀ f, v.normalise = .error f → f.OfData
  | .arr items, f, h => by
    have ih := normaliseItems_error items
    rw [normalise] at h
    cases hi : normaliseItems items with
    | error f' =>
      rw [hi] at h
      cases h
      exact ih f hi
    | ok vs =>
      rw [hi] at h
      cases h
  | .obj fields, f, h => by
    have ih := fieldTrees_ofData fields
    rw [normalise] at h
    exact convertNode_error ih h
  | .null, _, h | .bool _, _, h | .int _, _, h | .real _, _, h | .str _, _, h => by
    rw [normalise] at h
    · cases h
    all_goals exact nofun

theorem normaliseItems_error : (items : List Json) → ∀ f, normaliseItems items = .error f →
    f.OfData
  | [], _, h => by cases h
  | v :: rest, f, h => by
    have ih := normalise_error v
    have ih' := normaliseItems_error rest
    rw [normaliseItems] at h
    rcases bind_eq_error h with h | ⟨w, -, h⟩
    · exact ih f h
    rcases bind_eq_error h with h | ⟨ws, -, h⟩
    · exact ih' f h
    · cases h

theorem fieldTrees_ofData : (fields : List (String × Json)) → FieldsOfData (fieldTrees fields)
  | [] => fun _ hm => nomatch hm
  | (k, v) :: rest => by
    have ih := normalise_error v
    have ih' := fieldTrees_ofData rest
    intro field hm
    rcases List.mem_cons.mp hm with rfl | hm
    · exact ih
    · exact ih' field hm

end

end Json

namespace CommandLine.Desk

theorem readTree_error {text : List Char} {f : Fault} (h : readTree text = .error f) :
    f.OfData := by
  rcases bind_eq_error h with h | ⟨data, -, h⟩
  · cases hr : Json.read text with
    | ok v =>
      rw [hr] at h
      cases h
    | error failure =>
      rw [hr] at h
      cases h
      exact .inl rfl
  rcases bind_eq_error h with h | ⟨p, -, h⟩
  · cases hn : data.normalise with
    | ok v =>
      rw [Program.ofJson, hn] at h
      cases h
    | error f' =>
      rw [Program.ofJson, hn] at h
      cases h
      exact data.normalise_error f hn
  · split at h
    · cases h
    · cases h
      exact .inl rfl

/-- The bot of a command once its vital signs were read. -/
def examinedBot : Bot := { echo := true, calls := #[.vitals] }

theorem tame_examinedBot : examinedBot.Tame :=
  Bot.tame_idle true #[.vitals] [] Bot.silent_default

def machine (settings : Settings) (clock : Float) : Machine :=
  .fresh { echo := true } settings clock

theorem exists_readings {settings : Settings} {clock : Float} {p : Program} {m₀ : Machine}
    {body : Body} (h : (machine settings clock).Begins p m₀ body) :
    ∃ s m₁, Run.readGauges m₀ = .ok s m₁ ∧ ∀ g, (s.reading g).Plain := by
  obtain ⟨hb, -, -⟩ := h
  cases hb
  refine ⟨_, _, rfl, Snapshot.plain_ofPanels fun panel g => ?_⟩
  cases panel with
  | vitals => exact tame_examinedBot.vitals g
  | environment => exact tame_examinedBot.environment g
  | inventory => exact tame_examinedBot.inventory [] (Nat.le_refl _) g
  | isFull => exact .bool _
  | needsToEat => exact .bool _
  | healthLow => exact .bool _
  | hungerLow => exact .bool _

/-- The bot of a command shows what it reads. -/
theorem refresh_begun {settings : Settings} {clock : Float} {p : Program} {m₀ : Machine}
    {body : Body} (h : (machine settings clock).Begins p m₀ body) :
    ∃ m₁, Run.refresh m₀ = .ok () m₁ := by
  obtain ⟨s, m₁, hr, hp⟩ := exists_readings h
  obtain ⟨c, hc⟩ := Context.exists_update hp m₁.context m₁.now
  refine ⟨{ m₁ with context := c }, (Run.refresh_of_read hr).trans (Run.changeContext_ok ?_)⟩
  rw [hc]
  rfl

/-- A proper program that a command executes comes to an outcome. -/
theorem exists_outcome {p : Program} (hp : p.Proper) (settings : Settings) (clock : Float) :
    ∃ outcome, ((machine settings clock).execute p).1 = .ok outcome :=
  Machine.exists_outcome hp rfl fun _ _ h => refresh_begun h

/-- How a command ends that executes a program, by what became of the run. -/
theorem execute_ends (d : Desk) (o : Options) (settings : Settings) (p : Program) :
    let r := (d.execute o settings p).1
    match ((machine settings d.clock).execute p).1 with
    | .error f => r.ending = .fault f
    | .ok outcome =>
      match outcome.message? with
      | none => r.ending = .exit 0 ∧ r.complaints = ""
      | some message => r.ending = .exit 1 ∧ r.complaints = message ++ "\n" := by
  unfold execute machine
  dsimp only
  cases ((Machine.fresh ({ echo := true } : Bot) settings d.clock).execute p).1 with
  | error f => rfl
  | ok outcome =>
    dsimp only
    cases outcome.message? with
    | none => exact ⟨rfl, rfl⟩
    | some message => exact ⟨rfl, rfl⟩

end CommandLine.Desk

namespace CommandLine

/-- Options that name a stored tree and leave the settings as they are. -/
structure Options.Stored (o : Options) (path : String) : Prop where
  stored : o.stored = some path
  config : o.config = none
  emit : o.emit = none
  tokens : o.tokens = none

/-- How a command with a stored tree may end: the run goes well, the tree is no good, or the run
fails; or the command breaks off, for a number in the tree that is too large or for a misfit that
the run meets. -/
inductive StoredEnding (path : String) (tree : Except Fault Program)
    (result : Program → Except Fault Outcome) (r : Report) : Prop
  | fine (p : Program) (ht : tree = .ok p) (hr : result p = .ok .success)
    (he : r.ending = .exit 0) (hc : r.complaints = "")
  | told (f : Fault) (ht : tree = .error f) (hk : f.kind ≠ .overflow)
    (he : r = .refuse ("Error: invalid AST file " ++ Path.normal path ++ ": " ++ f.text))
  | failed (p : Program) (outcome : Outcome) (message : String) (ht : tree = .ok p)
    (hr : result p = .ok outcome) (hm : outcome.message? = some message)
    (he : r.ending = .exit 1) (hc : r.complaints = message ++ "\n")
  | tooLarge (f : Fault) (ht : tree = .error f) (hk : f.kind = .overflow)
    (he : r.ending = .fault f)
  | misfit (p : Program) (f : Fault) (ht : tree = .ok p) (hp : ¬ p.Proper)
    (hr : result p = .error f) (he : r.ending = .fault f)

namespace Desk

theorem runIn_stored {d : Desk} {format : Settings.Format} {words : List String} {o : Options}
    {path text : String}
    (hw : Options.read words = .ok o) (ho : o.Stored path)
    (hf : d.folder.entry? path = some (.file text)) :
    d.runIn format words = d.executeRead o {} (d.storedProgram path) := by
  obtain ⟨hs, hc, he, ht⟩ := ho
  have hg := given_of_file hf
  unfold runIn obey
  rw [hw]
  dsimp only
  rw [hc, he, ht, hs, hg]
  rfl

theorem kind_ne_overflow {f : Fault} (h : isBlamed f = true) : f.kind ≠ .overflow := by
  intro hk
  simp [isBlamed, hk] at h

/-- Whatever the file holds, a command with a stored tree breaks off only for a number that is too
large or for a misfit. -/
theorem stored_ends {d : Desk} (format : Settings.Format) {words : List String} {o : Options}
    {path text : String}
    (hw : Options.read words = .ok o) (ho : o.Stored path)
    (hf : d.folder.entry? path = some (.file text)) :
    StoredEnding path (readTree (Folder.unifyBreaks text.toList))
      (fun p => ((machine {} d.clock).execute p).1) (d.runIn format words).1 := by
  have hp : d.storedProgram path = (readTree (Folder.unifyBreaks text.toList)).mapError fun f =>
      if isBlamed f then .refuse ("Error: invalid AST file " ++ Path.normal path ++ ": " ++ f.text)
      else .breakOff f := by
    rw [storedProgram, source_of_file hf]
    rfl
  rw [runIn_stored hw ho hf, hp]
  cases ht : readTree (Folder.unifyBreaks text.toList) with
  | error f =>
    change StoredEnding path (.error f) _ (if isBlamed f then _ else _)
    by_cases hb : isBlamed f = true
    · exact .told f rfl (kind_ne_overflow hb) (if_pos hb)
    · exact .tooLarge f rfl ((readTree_error ht).resolve_left hb) (by rw [if_neg hb]; rfl)
  | ok p =>
    change StoredEnding path (.ok p) _ (d.execute o {} p).1
    have hends := d.execute_ends o {} p
    cases hres : ((machine {} d.clock).execute p).1 with
    | error f =>
      rw [hres] at hends
      refine .misfit p f rfl (fun hproper => ?_) hres hends
      obtain ⟨outcome, hout⟩ := exists_outcome hproper {} d.clock
      rw [hres] at hout
      cases hout
    | ok outcome =>
      rw [hres] at hends
      cases hm : outcome.message? with
      | none =>
        simp only [hm] at hends
        cases outcome with
        | success => exact .fine p rfl hres hends.1 hends.2
        | error message => cases hm
        | stopped => cases hm
      | some message =>
        simp only [hm] at hends
        exact .failed p outcome message rfl hres hm hends.1 hends.2

/-- A tree whose one statement names a variable that there is not. -/
theorem stored_ends_missing :
    let text := "\x7b\"type\": \"Program\", \"statements\": [" ++
      "\x7b\"type\": \"ExpressionStatement\", \"line\": 4, \"expression\": " ++
      "\x7b\"type\": \"VariableReference\", \"name\": \"missing\"\x7d\x7d]\x7d"
    let message := "Execution error at line 4, column 0: Undefined variable: missing"
    let d : Desk := { folder := ⟨[("a.json", text)]⟩ }
    let o : Options := { stored := some "a.json" }
    let r := (d.run ["--ast", "a.json"]).1
    Options.read ["--ast", "a.json"] = .ok o ∧ o.Stored "a.json" ∧
      d.folder.entry? "a.json" = some (.file text) ∧
      StoredEnding "a.json" (readTree (Folder.unifyBreaks text.toList))
        (fun p => ((machine {} d.clock).execute p).1) r ∧
      r = ⟨[.log .warning 0 message], message ++ "\n", .exit 1⟩ := by
  intro text message d o r
  have hw : Options.read ["--ast", "a.json"] = .ok o := by cbv
  have ho : o.Stored "a.json" := ⟨rfl, rfl, rfl, rfl⟩
  have hf : d.folder.entry? "a.json" = some (.file text) := rfl
  exact ⟨hw, ho, hf, stored_ends Yaml.format hw ho hf, by decide +kernel⟩

/-- An infinite line breaks the command off. -/
theorem infinite_line_breaks_off :
    let text := "\x7b\"type\": \"Program\", \"line\": Infinity, \"column\": 1, \"statements\": []\x7d"
    let d : Desk := { folder := ⟨[("a.json", text)]⟩ }
    (d.run ["--ast", "a.json"]).1.ending =
      .fault ⟨.overflow, "cannot convert float infinity to integer"⟩ := by
  decide +kernel

end Desk

end CommandLine

end AgentScript

import AgentScript.CommandLine.Run
import AgentScript.Proofs.CommandLine.Folder
import AgentScript.Proofs.Syntax.Codec
import AgentScript.Proofs.Syntax.Earliest
import AgentScript.Proofs.Syntax.Legible

/-! Running the stored tree of a script is running the script. -/
namespace AgentScript

/-- The stored text of a source's tree reads as the program of the source. -/
theorem Program.readTree_indented {source : String} {p : Program}
    (h : Program.ofSource source = .ok p) (hl : source.length + 1 < 10 ^ Number.digitLimit)
    (hn : ReadsBack source) :
    CommandLine.Desk.readTree (Folder.unifyBreaks p.toTree.indented.toList) = .ok p := by
  have hlegible := p.legible h hl hn
  have hread : Folder.unifyBreaks p.toTree.indented.toList = p.toTree.indentedChars 0 := by
    rw [Json.indented, String.toList_ofList]
    exact Folder.unifyBreaks_of_clean (hlegible.return_notMem 0)
  rw [hread, CommandLine.Desk.readTree, hlegible.read_indented]
  change (Program.ofJson p.toTree >>= _) = _
  rw [Program.ofJson_toTree h]
  obtain ⟨d, -, rfl⟩ := (Grammar.accepts_tokenize source p).mp h
  rfl

namespace CommandLine.Desk

variable {d : Desk} {path tree text : String} {verbosity : Nat} {config : Option String}
  {words : List String} {format : Settings.Format}

theorem runIn_emit (h : Options.read words = .ok { emit := some path })
    (hp : given (some path) = some path) : d.runIn format words = d.emit path := by
  rw [runIn, h]
  unfold obey
  simp only [hp]
  rfl

/-- What the options of a run do when the settings are read. -/
theorem runIn_program (h : Options.read words =
      .ok { verbosity := verbosity, config := config, program := some path })
    (hp : given (some path) = some path) :
    d.runIn format words = match d.settings format (given config) with
      | .error report => (report, d)
      | .ok settings => d.executeRead { verbosity := verbosity } settings (d.script path) := by
  rw [runIn, h]
  unfold obey
  simp only [hp]
  rfl

theorem runIn_tree (h : Options.read words =
      .ok { verbosity := verbosity, config := config, stored := some tree })
    (hp : given (some tree) = some tree) :
    d.runIn format words = match d.settings format (given config) with
      | .error report => (report, d)
      | .ok settings => d.executeRead { verbosity := verbosity } settings (d.storedProgram tree) := by
  rw [runIn, h]
  unfold obey
  simp only [hp]
  rfl

section Files

variable (hf : d.folder.entry? path = some (.file text))
include hf

theorem normal_treePath : Path.normal (treePath path) = treePath path :=
  Path.normal_extended (Folder.parts_of_file hf) ".ast.json".toList (by decide) (by decide)

theorem isFolder_treePath : Path.isFolder (treePath path) = false :=
  Path.isFolder_extended (Folder.parts_of_file hf) ".ast.json".toList (by decide) (by decide)

/-- The stored tree has a name of its own. -/
theorem normal_ne_treePath : Path.normal path ≠ Path.normal (treePath path) := by
  rw [normal_treePath hf]
  intro he
  have hlength := congrArg String.length he
  have hext : ".ast.json".length = 9 := rfl
  rw [treePath, String.length_append] at hlength
  omega

end Files

/-- The script at a path is that of the file, and nothing else about the desk counts. -/
theorem script_congr {later : Desk}
    (h : later.folder.entry? path = d.folder.entry? path) : later.script path = d.script path := by
  unfold script source
  rw [h]

theorem settings_congr {later : Desk}
    (h : ∀ file, given config = some file → later.folder.entry? file = d.folder.entry? file) :
    later.settings format (given config) = d.settings format (given config) := by
  cases hc : given config with
  | none => rfl
  | some file =>
    unfold settings
    dsimp only
    rw [h file hc]

theorem script_of_file (hf : d.folder.entry? path = some (.file text)) :
    d.script path = (Program.ofSource (String.ofList (Folder.unifyBreaks text.toList))).mapError
      fun
        | .error e => .refuse e.text
        | .fault f => .breakOff f := by
  rw [script, source_of_file hf]
  rfl

theorem ofSource_of_script {p : Program} (hf : d.folder.entry? path = some (.file text))
    (h : d.script path = .ok p) :
    Program.ofSource (String.ofList (Folder.unifyBreaks text.toList)) = .ok p := by
  rw [script_of_file hf] at h
  exact mapError_eq_ok h

theorem ending_of_script {report : Report} (hf : d.folder.entry? path = some (.file text))
    (h : d.script path = .error report) : report.ending = .exit 1 := by
  rw [script_of_file hf] at h
  cases hs : Program.ofSource (String.ofList (Folder.unifyBreaks text.toList)) with
  | ok p =>
    rw [hs] at h
    cases h
  | error e =>
    obtain ⟨err, rfl⟩ := Grammar.ofSource_error hs
    rw [hs] at h
    cases h
    rfl

def stored (d : Desk) (path : String) (p : Program) (clock : Float) : Desk :=
  { folder := d.folder.write (treePath path) p.toTree.indented, clock := clock }

theorem finds_stored (hf : d.folder.entry? path = some (.file text))
    (ht : Path.normal tree = treePath path) (p : Program) (clock : Float) :
    Folder.entry? (d.stored path p clock).folder tree = some (.file p.toTree.indented) := by
  refine Folder.finds_written (ht.trans (normal_treePath hf).symm) ?_
  rw [← Path.isFolder_normal, ht]
  exact isFolder_treePath hf

/-- The stored tree of a script is the program of the script. -/
theorem storedProgram_stored {p : Program} (hf : d.folder.entry? path = some (.file text))
    (h : d.script path = .ok p) (ht : Path.normal tree = treePath path)
    (hl : text.length + 1 < 10 ^ Number.digitLimit)
    (hn : ReadsBack (String.ofList (Folder.unifyBreaks text.toList))) (clock : Float) :
    (d.stored path p clock).storedProgram tree = .ok p := by
  have hs := ofSource_of_script hf h
  have hlength : (String.ofList (Folder.unifyBreaks text.toList)).length + 1 <
      10 ^ Number.digitLimit := by
    have := Folder.length_unifyBreaks text.toList
    rw [String.length_ofList]
    rw [String.length_toList] at this
    omega
  rw [storedProgram, source_of_file (finds_stored hf ht p clock)]
  change (readTree _).mapError _ = _
  rw [p.readTree_indented hs hlength hn]
  rfl

section Runs

variable {emitting running storing : List String}
  (hf : d.folder.entry? path = some (.file text))

include hf

theorem runIn_emit_ok {p : Program} (he : Options.read emitting = .ok { emit := some path })
    (h : d.script path = .ok p) :
    d.runIn format emitting = ({ output := [.print (treePath path)] }, d.stored path p d.clock) := by
  rw [runIn_emit he (given_of_file hf), emit, h]
  rfl

theorem runIn_emit_error {report : Report} (he : Options.read emitting = .ok { emit := some path })
    (h : d.script path = .error report) : d.runIn format emitting = (report, d) := by
  rw [runIn_emit he (given_of_file hf), emit, h]

variable (hr : Options.read running =
  .ok { verbosity := verbosity, config := config, program := some path })

include hr

/-- The run of a script does not depend on where its tree is stored, unless the settings do. -/
theorem runIn_beside {p : Program} (h : d.script path = .ok p)
    (hc : ∀ file, given config = some file → Path.normal file ≠ treePath path) (clock : Float) :
    ((d.stored path p clock).runIn format running).1 =
      ({ d with clock := clock }.runIn format running).1 := by
  have hp := given_of_file hf
  have hscript : (d.stored path p clock).script path =
      ({ d with clock := clock } : Desk).script path :=
    script_congr (Folder.finds_beside (normal_ne_treePath hf))
  have hsettings : (d.stored path p clock).settings format (given config) =
      ({ d with clock := clock } : Desk).settings format (given config) :=
    settings_congr fun file hfile => Folder.finds_beside (by
      rw [normal_treePath hf]
      exact hc file hfile)
  have h : ({ d with clock := clock } : Desk).script path = .ok p := h
  rw [runIn_program hr hp, runIn_program hr hp, hscript, hsettings, h]
  cases ({ d with clock := clock } : Desk).settings format (given config) <;> rfl

theorem runIn_tree_eq {p : Program} (h : d.script path = .ok p)
    (hs : Options.read storing =
      .ok { verbosity := verbosity, config := config, stored := some tree })
    (ht : Path.normal tree = treePath path) (hl : text.length + 1 < 10 ^ Number.digitLimit)
    (hn : ReadsBack (String.ofList (Folder.unifyBreaks text.toList))) (clock : Float) :
    (d.stored path p clock).runIn format storing = (d.stored path p clock).runIn format running := by
  have hscript : (d.stored path p clock).script path = .ok p :=
    (script_congr (Folder.finds_beside (normal_ne_treePath hf))).trans h
  rw [runIn_tree hs (given_of_file (finds_stored hf ht p clock)),
    runIn_program hr (given_of_file hf), hscript, storedProgram_stored hf h ht hl hn]

end Runs

/-- A script that parses is stored as a tree, and from then on a run of the tree is a run of the
script, whatever the settings and the clock; it reports what the script reports without the tree,
too, unless the settings stand where the tree was stored. A script that does not parse is not
stored, and is refused as its run is. Lines and columns of the tree have no more digits than can be
read back. -/
theorem emitted_runs_as_script (format : Settings.Format)
    {emitting running storing : List String}
    (hf : d.folder.entry? path = some (.file text)) (ht : Path.normal tree = treePath path)
    (he : Options.read emitting = .ok { emit := some path })
    (hr : Options.read running =
      .ok { verbosity := verbosity, config := config, program := some path })
    (hs : Options.read storing =
      .ok { verbosity := verbosity, config := config, stored := some tree })
    (hl : text.length + 1 < 10 ^ Number.digitLimit)
    (hn : ReadsBack (String.ofList (Folder.unifyBreaks text.toList))) :
    (∀ p, d.script path = .ok p →
      d.runIn format emitting = ({ output := [.print (treePath path)] }, d.stored path p d.clock) ∧
      ∀ clock,
        (d.stored path p clock).runIn format storing = (d.stored path p clock).runIn format running ∧
        ((∀ file, given config = some file → Path.normal file ≠ treePath path) →
          ((d.stored path p clock).runIn format storing).1 =
            ({ d with clock := clock }.runIn format running).1)) ∧
    ∀ report, d.script path = .error report →
      d.runIn format emitting = (report, d) ∧ report.ending = .exit 1 ∧
      ∀ settings, d.settings format (given config) = .ok settings →
        d.runIn format running = (report, d) := by
  refine ⟨fun p h => ⟨runIn_emit_ok hf he h, fun clock => ?_⟩, fun report h => ?_⟩
  · have hsame : (d.stored path p clock).runIn format storing =
        (d.stored path p clock).runIn format running := runIn_tree_eq hf hr h hs ht hl hn clock
    refine ⟨hsame, fun hc => ?_⟩
    rw [hsame]
    exact runIn_beside hf hr h hc clock
  · refine ⟨runIn_emit_error hf he h, ending_of_script hf h, fun settings hsettings => ?_⟩
    rw [runIn_program hr (given_of_file hf), hsettings, h]
    rfl

/-- A script that says a number. -/
theorem emitted_runs_as_script_say :
    let text := "say 1.5\n"
    let d : Desk := { folder := ⟨[("a.bot", text)]⟩ }
    d.folder.entry? "a.bot" = some (.file text) ∧
      Path.normal "./a.bot.ast.json" = treePath "a.bot" ∧
      Options.read ["--emit-ast", "a.bot"] = .ok { emit := some "a.bot" } ∧
      Options.read ["-v", "a.bot"] = .ok { verbosity := 1, program := some "a.bot" } ∧
      Options.read ["-v", "--ast", "./a.bot.ast.json"] =
        .ok { verbosity := 1, stored := some "./a.bot.ast.json" } ∧
      text.length + 1 < 10 ^ Number.digitLimit ∧
      ReadsBack (String.ofList (Folder.unifyBreaks text.toList)) ∧
      ∃ p, d.script "a.bot" = .ok p ∧ ∀ clock,
        (d.stored "a.bot" p clock).run ["-v", "--ast", "./a.bot.ast.json"] =
          (d.stored "a.bot" p clock).run ["-v", "a.bot"] := by
  intro text d
  have hf : d.folder.entry? "a.bot" = some (.file text) := rfl
  have ht : Path.normal "./a.bot.ast.json" = treePath "a.bot" := by decide +kernel
  have he : Options.read ["--emit-ast", "a.bot"] = .ok { emit := some "a.bot" } := by decide +kernel
  have hr : Options.read ["-v", "a.bot"] = .ok { verbosity := 1, program := some "a.bot" } := by
    decide +kernel
  have hs : Options.read ["-v", "--ast", "./a.bot.ast.json"] =
      .ok { verbosity := 1, stored := some "./a.bot.ast.json" } := by decide +kernel
  have hl : text.length + 1 < 10 ^ Number.digitLimit :=
    Nat.lt_of_lt_of_le (by decide : text.length + 1 < 10 ^ 1)
      (Nat.pow_le_pow_right (by decide) (by decide))
  have hn : ReadsBack (String.ofList (Folder.unifyBreaks text.toList)) := by decide +kernel
  have hok : (d.script "a.bot").isOk := by decide +kernel
  refine ⟨hf, ht, he, hr, hs, hl, hn, ?_⟩
  cases h : d.script "a.bot" with
  | error report =>
    rw [h] at hok
    cases hok
  | ok p =>
    have hruns := (emitted_runs_as_script Yaml.format hf ht he hr hs hl hn).1 p h
    exact ⟨p, rfl, fun clock => (hruns.2 clock).1⟩

end CommandLine.Desk

end AgentScript

import AgentScript.CommandLine.Folder
import AgentScript.CommandLine.Options
import AgentScript.Json.Printer
import AgentScript.Json.Reader
import AgentScript.Machine.Execution
import AgentScript.Settings.File
import AgentScript.Syntax.Codec
import AgentScript.Syntax.Parser

/-! What a command line does in a folder of files, whatever the format of its settings file. -/
namespace AgentScript.CommandLine

/-- How a command ends: with an exit code, or broken off by a fault. -/
inductive Ending
  | exit (code : Nat)
  | fault (f : Fault)
deriving DecidableEq, Repr

/-- What a command leaves: its output, its complaints, and its ending. -/
structure Report where
  output : List Line := []
  complaints : String := ""
  ending : Ending := .exit 0
deriving DecidableEq, Repr

namespace Report

def refuse (text : String) : Report := { complaints := text ++ "\n", ending := .exit 1 }

def breakOff (f : Fault) : Report := { ending := .fault f }

end Report

/-- Where commands run: a folder and a clock, in seconds. -/
structure Desk where
  folder : Folder
  clock : Float := 0

/-- Whether a line is shown: what is printed always, and of the log as much as is asked for. -/
def isShown (verbosity : Nat) : Line → Bool
  | .print _ => true
  | .log level _ _ => level.detail ≤ verbosity

/-- The text of a line. Log lines begin with the stamp of their time. -/
def lineText (stamp : Float → String) : Line → String
  | .print text => text ++ "\n"
  | .log level time text =>
    stamp time ++ " [" ++ level.name ++ "] botscript.interpreter: " ++ text ++ "\n"

def Report.outputText (stamp : Float → String) (r : Report) : String :=
  String.join (r.output.map (lineText stamp))

namespace Desk

/-- Executes a program with an idle bot, and reports how that went. -/
def execute (d : Desk) (o : Options) (settings : Settings) (p : Program) : Report × Desk :=
  let (outcome, m) := (Machine.fresh ({ echo := true } : Bot) settings d.clock).execute p
  let shown := m.output.toList.filter (isShown o.verbosity)
  let report : Report :=
    match outcome with
    | .error f => { output := shown, ending := .fault f }
    | .ok outcome =>
      match outcome.message? with
      | none => { output := shown }
      | some message => { output := shown, complaints := message ++ "\n", ending := .exit 1 }
  (report, { d with clock := m.clock })

/-- The text at a path, or the report that there is none. -/
def source (d : Desk) (path : String) : Except Report (List Char) :=
  match d.folder.entry? path with
  | none => .error (.refuse ("Error: file " ++ Path.normal path ++ " not found"))
  | some entry => (Folder.textOf path entry).mapError .breakOff

def script (d : Desk) (path : String) : Except Report Program := do
  let text ← d.source path
  (Program.ofSource (String.ofList text)).mapError fun
    | .error e => .refuse e.text
    | .fault f => .breakOff f

def listTokens (d : Desk) (path : String) : Report :=
  match d.source path with
  | .error report => report
  | .ok text => { output := (tokenize (String.ofList text)).map fun t => .print t.listing }

def treePath (path : String) : String := Path.normal path ++ ".ast.json"

def emit (d : Desk) (path : String) : Report × Desk :=
  match d.script path with
  | .error report => (report, d)
  | .ok p =>
    ({ output := [.print (treePath path)] },
      { d with folder := d.folder.write (treePath path) p.toTree.indented })

/-- Whether a fault in a stored tree is blamed on the tree. -/
def isBlamed (f : Fault) : Bool := f.kind = .value || f.kind = .type || f.kind = .key

/-- The program of a stored tree, or what is wrong with the tree. -/
def readTree (text : List Char) : Except Fault Program := do
  let data ← (Json.read text).mapError fun failure => ⟨.value, failure.message text⟩
  match ← Program.ofJson data with
  | .program loc body => return .program loc body
  | .misfit _ => throw ⟨.value, "top-level node must be a Program"⟩

def storedProgram (d : Desk) (path : String) : Except Report Program := do
  let text ← d.source path
  (readTree text).mapError fun f =>
    if isBlamed f then .refuse ("Error: invalid AST file " ++ Path.normal path ++ ": " ++ f.text)
    else .breakOff f

def executeRead (d : Desk) (o : Options) (settings : Settings) (p : Except Report Program) :
    Report × Desk :=
  match p with
  | .error report => (report, d)
  | .ok p => d.execute o settings p

def settings (d : Desk) (format : Settings.Format) (config : Option String) :
    Except Report Settings :=
  match config with
  | none => .ok {}
  | some path =>
    let blame (f : Fault) : Report :=
      if f.kind = .value || f.kind = .fileNotFound || f.kind = .isDirectory then
        .refuse ("Error: " ++ f.text)
      else .breakOff f
    Except.mapError blame do
      let text ← (d.folder.entry? path).mapM (Folder.textOf path)
      Settings.ofFileIn format (Path.normal path) text

/-- Does what the options ask for. Settings are read first in any case. -/
def obey (d : Desk) (format : Settings.Format) (o : Options) : Report × Desk :=
  match d.settings format (given o.config) with
  | .error report => (report, d)
  | .ok settings =>
    match given o.tokens, given o.emit, given o.stored, given o.program with
    | some path, _, _, _ => (d.listTokens path, d)
    | none, some path, _, _ => d.emit path
    | none, none, some path, _ => d.executeRead o settings (d.storedProgram path)
    | none, none, none, some path => d.executeRead o settings (d.script path)
    | none, none, none, none =>
      ({ complaints := complaint "missing script file; or use --emit-ast/--ast/--tokens",
         ending := .exit 2 }, d)

def runIn (d : Desk) (format : Settings.Format) (arguments : List String) : Report × Desk :=
  match Options.read arguments with
  | .error .help => ({ output := [.print help] }, d)
  | .error (.misuse text) => ({ complaints := complaint text, ending := .exit 2 }, d)
  | .ok o => d.obey format o

end Desk

end AgentScript.CommandLine

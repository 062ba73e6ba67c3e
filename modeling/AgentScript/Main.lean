import AgentScript.CommandLine.Run

/-! The program: reads the files that its options name, runs, writes and prints. -/
namespace AgentScript.CommandLine

/-- The time of a log line, in seconds. -/
def stamp (time : Float) : String := Number.fixedText 3 time

def load (path : String) : IO (Option (String × String)) := do
  try
    let text ← IO.FS.readFile path
    return some (Path.normal path, text)
  catch _ => return none

/-- Writes the files of a folder that another one lacks. -/
def save (before after : Folder) : IO Unit := do
  for (name, text) in after.files do
    unless before.files.contains (name, text) do IO.FS.writeFile name text

end AgentScript.CommandLine

open AgentScript.CommandLine in
def main (arguments : List String) : IO UInt32 := do
  let paths := match Options.read arguments with
    | .ok o => o.paths
    | .error _ => []
  let files ← paths.filterMapM load
  let time ← IO.monoMsNow
  let desk : Desk := ⟨⟨files⟩, Float.ofNat time / 1000⟩
  let (report, after) := desk.run arguments
  save desk.folder after.folder
  IO.print (report.outputText stamp)
  IO.eprint report.complaints
  match report.ending with
  | .exit code => return UInt32.ofNat code
  | .fault f =>
    IO.eprintln (f.kind.name ++ ": " ++ f.text)
    return 1

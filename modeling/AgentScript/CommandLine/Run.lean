import AgentScript.CommandLine.Desk
import AgentScript.Yaml.Reader

/-! The command line as it is run: settings files are in YAML. -/
namespace AgentScript

/-- The format of settings files. What is wrong with a text is not told apart. -/
def Yaml.format : Settings.Format := fun text =>
  ((read? text).map .ok).getD (.error ⟨.malformedSettings, ""⟩)

def Settings.ofFile (path : String) (text : Option (List Char)) : Except Fault Settings :=
  ofFileIn Yaml.format path text

def CommandLine.Desk.run (d : Desk) (arguments : List String) : Report × Desk :=
  d.runIn Yaml.format arguments

end AgentScript

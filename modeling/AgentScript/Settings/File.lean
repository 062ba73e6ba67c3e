import AgentScript.Settings

/-! Settings from a file. They stand at the top level, or in a section of their own. The format of
the file is a parameter. -/
namespace AgentScript.Settings

/-- How the text of a settings file reads as data. -/
abbrev Format := List Char → Except Fault Json

def sectionName : String := "botscript"

/-- Settings from the text of a file. A file without content leaves all defaults. -/
def ofText (format : Format) (path : String) (text : List Char) : Except Fault Settings := do
  let data ← format text
  if !data.truthy then return {}
  match data with
  | .obj _ => pure ()
  | _ => throw ⟨.value, "Config file " ++ path ++ " must contain a mapping at top level"⟩
  match (data.field? sectionName).getD data with
  | .obj fields => ofJson (.obj fields)
  | _ => throw ⟨.value, "'" ++ sectionName ++ "' section in " ++ path ++ " must be a mapping"⟩

/-- Settings from a file that may be missing. -/
def ofFileIn (format : Format) (path : String) (text : Option (List Char)) :
    Except Fault Settings :=
  match text with
  | some text => ofText format path text
  | none => .error ⟨.fileNotFound, "Config file not found: " ++ path⟩

end AgentScript.Settings

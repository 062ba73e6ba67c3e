import AgentScript.Fault
import AgentScript.Text.Classes

/-! A folder of text files, and paths in it. -/
namespace AgentScript

namespace Path

/-- The slashes at the start of a path that count: two of them are kept apart from one, and more
are one. -/
def root : List Char → List Char
  | '/' :: '/' :: '/' :: _ => ['/']
  | '/' :: '/' :: _ => ['/', '/']
  | '/' :: _ => ['/']
  | _ => []

def parts (path : String) : List (List Char) :=
  (Text.splitAt '/' path.toList).filter fun p => p ≠ [] && p ≠ ['.']

/-- The plain form of a path: single slashes, no steps to the same place, and a point for the empty
path. -/
def normal (path : String) : String :=
  let text := root path.toList ++ (List.intercalate ['/'] (parts path))
  if text.isEmpty then "." else String.ofList text

/-- Whether a path leads to the folder itself, upward from it, or to the root. -/
def isFolder (path : String) : Bool := (parts path).all fun p => p = ['.', '.']

end Path

/-- Files by name, in the order in which they were made. -/
structure Folder where
  files : List (String × String) := []
deriving DecidableEq, Repr

inductive Entry
  | file (text : String)
  | folder
deriving DecidableEq, Repr

namespace Folder

def entry? (d : Folder) (path : String) : Option Entry :=
  if Path.isFolder path then some .folder
  else (d.files.lookup (Path.normal path)).map .file

/-- Writes a file. One of the same name is replaced and keeps its place. -/
def put (name text : String) : List (String × String) → List (String × String)
  | [] => [(name, text)]
  | (n, t) :: rest => if n = name then (n, text) :: rest else (n, t) :: put name text rest

def write (d : Folder) (path text : String) : Folder := ⟨put (Path.normal path) text d.files⟩

/-- All line breaks as single newlines. -/
def unifyBreaks : List Char → List Char
  | [] => []
  | '\r' :: '\n' :: r => '\n' :: unifyBreaks r
  | '\r' :: r => '\n' :: unifyBreaks r
  | c :: r => c :: unifyBreaks r

/-- The text of what a path leads to. Folders have none. -/
def textOf (path : String) : Entry → Except Fault (List Char)
  | .file text => .ok (unifyBreaks text.toList)
  | .folder =>
    .error ⟨.isDirectory, "[Errno 21] Is a directory: " ++ Text.quoted (Path.normal path)⟩

end Folder

end AgentScript

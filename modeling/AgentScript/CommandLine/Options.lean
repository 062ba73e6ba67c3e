import AgentScript.Text.Classes
import AgentScript.Text.Quoted

/-! The options of the command line and how they are read. -/
namespace AgentScript.CommandLine

inductive Flag
  | help | verbose | config | emit | stored | tokens
deriving DecidableEq, Repr

namespace Flag

/-- The spellings of all flags, in the order in which they are listed. -/
def spellings : List (String × Flag) :=
  [("-h", help), ("--help", help), ("-v", verbose), ("--config", config), ("--emit-ast", emit),
    ("--ast", stored), ("--tokens", tokens)]

def ofLetter? (c : Char) : Option Flag := spellings.lookup (String.ofList ['-', c])

/-- What messages call a flag: all its spellings. -/
def label (f : Flag) : String :=
  String.intercalate "/" ((spellings.filter fun (_, g) => g = f).map (·.1))

def takesValue : Flag → Bool
  | help | verbose => false
  | _ => true

/-- Flags of which at most one may be given. -/
def exclusive : List Flag := [emit, stored, tokens]

end Flag

/-- What the words of a command line ask for. -/
structure Options where
  verbosity : Nat := 0
  config : Option String := none
  emit : Option String := none
  stored : Option String := none
  tokens : Option String := none
  program : Option String := none
deriving DecidableEq, Repr

/-- The value of an option, which counts only if it is not empty. -/
def given (value : Option String) : Option String := value.filter (· ≠ "")

def Options.paths (o : Options) : List String :=
  [o.config, o.tokens, o.emit, o.stored, o.program].filterMap given

/-- Why no options result: help was asked for, or the words make no sense. -/
inductive Digression
  | help
  | misuse (text : String)
deriving DecidableEq, Repr

/-- A word of the command line: a plain one, the divider after which all words are plain, a flag
alone, with a text after an equals sign or with letters of more flags, or what looks like a flag
and is none. -/
inductive Word
  | plain (s : String)
  | divider
  | flag (f : Flag)
  | assigned (f : Flag) (text : List Char)
  | letters (f : Flag) (text : List Char)
  | unknown (s : String)
deriving DecidableEq, Repr

namespace Word

/-- The parts of a text around its first equals sign. -/
def splitEquals (cs : List Char) : List Char × Option (List Char) :=
  match cs.dropWhile (· ≠ '=') with
  | [] => (cs, none)
  | _ :: value => (cs.takeWhile (· ≠ '='), some value)

/-- A negative number is a plain word. -/
def isNegativeNumber (cs : List Char) : Bool :=
  match cs with
  | '-' :: r =>
    let r := r.map Text.latinDigit
    let whole := r.takeWhile Text.isDigit
    match r.dropWhile Text.isDigit with
    | [] => !whole.isEmpty
    | '.' :: fraction => !fraction.isEmpty && fraction.all Text.isDigit
    | _ => false
  | _ => false

/-- What looks like a flag is taken for a plain word if it holds a blank or is a negative number. -/
def stray (s : String) : Word :=
  if isNegativeNumber s.toList || s.toList.contains ' ' then plain s else unknown s

/-- A word that begins with two dashes: it may be cut short as long as it means one flag only. -/
def ofLong (s : String) : Except Digression Word :=
  let (name, value) := splitEquals s.toList
  match Flag.spellings.filter fun (spelling, _) => name.isPrefixOf spelling.toList with
  | [] => .ok (stray s)
  | [(_, f)] => .ok ((value.map (assigned f)).getD (flag f))
  | several => .error (.misuse ("ambiguous option: " ++ s ++ " could match "
      ++ String.intercalate ", " (several.map (·.1))))

/-- Reads one word before the divider. -/
def ofString (s : String) : Except Digression Word :=
  match Flag.spellings.lookup s with
  | some f => .ok (flag f)
  | none =>
    let (name, value) := splitEquals s.toList
    match Flag.spellings.lookup (String.ofList name), value with
    | some f, some value => .ok (assigned f value)
    | _, _ =>
      match s.toList with
      | '-' :: '-' :: _ => ofLong s
      | '-' :: c :: text =>
        match Flag.ofLetter? c with
        | some f => .ok (letters f text)
        | none => .ok (stray s)
      | _ => .ok (plain s)

def ofStrings : List String → Except Digression (List Word)
  | [] => .ok []
  | s :: rest =>
    if s = "--" then .ok (divider :: rest.map plain)
    else do
      let w ← ofString s
      return w :: (← ofStrings rest)

end Word

/-- The state of reading: the options so far, the flags that had a value, whether the place of the
program is taken, and the words that have no place. -/
structure Reading where
  options : Options := {}
  given : List Flag := []
  placed : Bool := false
  extras : List String := []

namespace Reading

def misuse {α : Type} (f : Flag) (text : String) : Except Digression α :=
  .error (.misuse ("argument " ++ f.label ++ ": " ++ text))

/-- A flag that was given and leaves no room for another one. -/
def rival? (r : Reading) (f : Flag) : Option Flag :=
  if Flag.exclusive.contains f then
    Flag.exclusive.find? fun g => g ≠ f && r.given.contains g
  else none

/-- Gives a flag its value. A repeated flag takes the last one. -/
def setValue (r : Reading) (f : Flag) (value : String) : Except Digression Reading :=
  match rival? r f with
  | some g => misuse f ("not allowed with argument " ++ g.label)
  | none => .ok (store r f value)
where
  store (r : Reading) (f : Flag) (value : String) : Reading :=
    { r with
      given := f :: r.given
      options :=
        match f with
        | .config => { r.options with config := some value }
        | .emit => { r.options with emit := some value }
        | .stored => { r.options with stored := some value }
        | .tokens => { r.options with tokens := some value }
        | .help | .verbose => r.options }

def act (r : Reading) (f : Flag) : Except Digression Reading :=
  match f with
  | .help => .error .help
  | _ => .ok { r with options := { r.options with verbosity := r.options.verbosity + 1 } }

def ignored {α : Type} (f : Flag) (text : List Char) : Except Digression α :=
  misuse f ("ignored explicit argument " ++ Text.quoted (String.ofList text))

/-- The flags that a letter and the letters after it stand for, and what is left from a letter on
that stands for none. -/
def cluster (f : Flag) : List Char → Except Digression (List Flag × List String)
  | [] => .ok ([f], [])
  | c :: rest =>
    if c = '-' then ignored f (c :: rest)
    else
      match Flag.ofLetter? c with
      | none => .ok ([f], [String.ofList ('-' :: c :: rest)])
      | some g =>
        match rest with
        | '=' :: text => ignored g text
        | rest => do
          let (flags, extras) ← cluster g rest
          return (f :: flags, extras)

def actAll (r : Reading) (f : Flag) (text : List Char) : Except Digression Reading := do
  let (flags, extras) ← cluster f text
  flags.foldlM act { r with extras := r.extras ++ extras }

def assign (r : Reading) (f : Flag) (text : List Char) : Except Digression Reading :=
  if f.takesValue then r.setValue f (String.ofList text) else ignored f text

/-- A divider belongs to the place of the program that it stands at. -/
def afterDivider : List Word → List Word
  | .divider :: rest => rest
  | words => words

theorem afterDivider_length_le (words : List Word) :
    (afterDivider words).length ≤ words.length := by
  unfold afterDivider
  split <;> simp

def readWords (r : Reading) (words : List Word) : Except Digression Reading :=
  match words with
  | [] => .ok r
  | .unknown s :: rest => readWords { r with extras := r.extras ++ [s] } rest
  | .assigned f text :: rest => do
    let r ← r.assign f text
    readWords r rest
  | .letters f text :: rest => do
    let r ← r.actAll f text
    readWords r rest
  | .flag f :: rest =>
    if f.takesValue then
      match rest with
      | .plain s :: rest => do
        let r ← r.setValue f s
        readWords r rest
      | _ => misuse f "expected one argument"
    else do
      let r ← r.act f
      readWords r rest
  | .plain s :: rest =>
    if r.placed then readWords { r with extras := r.extras ++ [s] } rest
    else
      have := afterDivider_length_le rest
      readWords { r with placed := true, options.program := some s } (afterDivider rest)
  | .divider :: rest =>
    if r.placed then readWords { r with extras := r.extras ++ ["--"] } rest
    else
      match rest with
      | .plain s :: rest => readWords { r with placed := true, options.program := some s } rest
      | rest => readWords { r with placed := true } rest
termination_by words.length

end Reading

def Options.read (arguments : List String) : Except Digression Options := do
  let r ← Reading.readWords {} (← Word.ofStrings arguments)
  if r.extras.isEmpty then return r.options
  else throw (.misuse ("unrecognized arguments: " ++ String.intercalate " " r.extras))

def usage : String :=
  "usage: botscript [-h] [-v] [--config YAML_FILE]\n"
  ++ "                 [--emit-ast SCRIPT_FILE | --ast AST_JSON_FILE | --tokens SCRIPT_FILE]\n"
  ++ "                 [program]\n"

def help : String :=
  usage
  ++ "\nBotScript interpreter\n"
  ++ "\npositional arguments:\n"
  ++ "  program               BotScript file to execute\n"
  ++ "\noptions:\n"
  ++ "  -h, --help            show this help message and exit\n"
  ++ "  -v                    increase log verbosity (can be repeated)\n"
  ++ "  --config YAML_FILE    interpreter settings file\n"
  ++ "  --emit-ast SCRIPT_FILE\n"
  ++ "                        emit AST JSON for the given script\n"
  ++ "  --ast AST_JSON_FILE   execute AST from a JSON file\n"
  ++ "  --tokens SCRIPT_FILE  print the token stream of the given script"

def complaint (text : String) : String := usage ++ "botscript: error: " ++ text ++ "\n"

end AgentScript.CommandLine

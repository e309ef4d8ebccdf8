import Papyrus.Indexer

/-!
# The command line

Called with directories, the program indexes them once and prints a summary. Called
without, it serves an editor. Options are taken one after the other: the first fault ends
the program, and so does a request for the version.
-/
namespace Papyrus

/-- What the program is asked to do. -/
structure CommandLine where
  /-- The directories to index, in the order given. -/
  index : List Path := []
  extension : Option String := none
  verbose : Bool := false
  deriving Repr

/-- Why the command line is not carried out. -/
inductive CommandLine.Stop where
  /-- The version is asked for. -/
  | version
  /-- The help text is asked for. -/
  | help
  /-- The arguments make no sense. -/
  | usage
  deriving DecidableEq, Repr

namespace CommandLine

/-- What the program prints and how it exits. -/
structure Outcome where
  exit : Nat
  output : String
  deriving DecidableEq, Repr

/-- The name of the program and its version, as they are printed. -/
def versionLine : String := "scribe_lsp 0.1.0"

/-- What comes of a command line that is not carried out. -/
def Stop.outcome : Stop → Outcome
  | .version => ⟨0, versionLine ++ "\n"⟩
  | .help => ⟨0, ""⟩
  | .usage => ⟨2, ""⟩

/-- Ask for a directory to be indexed. It has to have a name. -/
def addIndex (line : CommandLine) (value : String) : Except Stop CommandLine :=
  if value.isEmpty then .error .usage
  else .ok { line with index := line.index ++ [⟨value⟩] }

/-- Set the extension, once. -/
def setExtension (line : CommandLine) (value : String) : Except Stop CommandLine :=
  if line.extension.isSome then .error .usage else .ok { line with extension := some value }

/-- Ask for more messages, once. -/
def setVerbose (line : CommandLine) : Except Stop CommandLine :=
  if line.verbose then .error .usage else .ok { line with verbose := true }

/-- Take letters that follow one dash. -/
def letters (line : CommandLine) : List Char → Except Stop CommandLine
  | [] => .ok line
  | 'v' :: rest => do letters (← line.setVerbose) rest
  | 'V' :: _ => .error .version
  | 'h' :: _ => .error .help
  | _ => .error .usage

/-- An option as its name and the value behind an equals sign, where it has one. -/
def splitOption (argument : List Char) : String × Option String :=
  match argument.dropWhile (· ≠ '=') with
  | _ :: value => (String.ofList (argument.takeWhile (· ≠ '=')), some (String.ofList value))
  | [] => (String.ofList argument, none)

/-- Whether an argument can be the value of the option in front of it: it is not an option
itself. -/
def isValue (argument : String) : Bool :=
  argument == "-" || argument.toList.head? != some '-'

/-- What the next argument is taken for. -/
inductive Expected where
  /-- An option. -/
  | option
  /-- The value of an option. -/
  | value (store : CommandLine → String → Except Stop CommandLine)
  /-- Nothing, behind the mark that ends the options. -/
  | nothing

/-- Take a long option, with the value behind its equals sign where it has one. -/
def longOption (line : CommandLine) : String × Option String → Except Stop (Expected × CommandLine)
  | ("index", some value) => (line.addIndex value).map (.option, ·)
  | ("index", none) => .ok (.value addIndex, line)
  | ("extension", some value) => (line.setExtension value).map (.option, ·)
  | ("extension", none) => .ok (.value setExtension, line)
  | ("verbose", none) => line.setVerbose.map (.option, ·)
  | ("version", none) => .error .version
  | ("help", none) => .error .help
  | _ => .error .usage

/-- Take one argument. -/
def takeArgument (state : Expected × CommandLine) (argument : String) :
    Except Stop (Expected × CommandLine) :=
  match state.1 with
  | .nothing => .error .usage
  | .value store =>
    if isValue argument then (store state.2 argument).map (.option, ·) else .error .usage
  | .option =>
    match argument.toList with
    | ['-', '-'] => .ok (.nothing, state.2)
    | '-' :: '-' :: name => state.2.longOption (splitOption name)
    | '-' :: first :: others => (state.2.letters (first :: others)).map (.option, ·)
    | _ => .error .usage

/-- What the arguments ask for. A value must not be missing at the end. -/
def ofArguments (arguments : List String) : Except Stop CommandLine := do
  match ← arguments.foldlM takeArgument (.option, {}) with
  | (.value _, _) => throw .usage
  | (_, line) => return line

/-- The summary of a scan that took so many milliseconds. -/
def summary (elapsed : String) (stats : ScanStats) (indexer : Indexer) : String :=
  "indexed " ++ toString stats.indexed ++ " files (" ++ toString indexer.index.scriptCount ++
    " scripts) in " ++ elapsed ++ "ms, " ++ toString stats.errors ++ " errors"

/-- Index the directories that the command line names, and sum up. -/
def indexOnce (line : CommandLine) (source : FileSource) (elapsed : String) : Outcome :=
  let indexer := Indexer.new (line.extension.getD defaultExtension)
  match indexer.indexRoots source line.index with
  | (some stats, indexer) => ⟨0, summary elapsed stats indexer ++ "\n"⟩
  | (none, _) => ⟨1, ""⟩

/-- What comes of a command line where no editor is connected: without directories to
index, there is nobody to serve. -/
def run (arguments : List String) (source : FileSource) (elapsed : String) : Outcome :=
  match ofArguments arguments with
  | .error stop => stop.outcome
  | .ok line => if line.index.isEmpty then ⟨0, ""⟩ else line.indexOnce source elapsed

end CommandLine
end Papyrus

import SchemaStitch.CommandLine.Arguments
import SchemaStitch.Job
import SchemaStitch.Loading

/-! # The command line

    A run of the program is a function: it takes a file tree and the words of the command
    line, and yields how the run ends, what it prints, and the file tree afterwards. -/

namespace SchemaStitch.CommandLine

/-! ## Usage -/

/-- How the program is used, in short. -/
def usage : Text :=
  "usage: gql-compose [-h] [--all] [--dedupe] [--validate] [-o OUTPUT] [-v]\n"
    ++ "                   sources [sources ...]\n"

/-- How the program is used. -/
def help : Text :=
  usage ++ "\n"
    ++ "gql-compose: merge GraphQL SDL documents into one schema\n"
    ++ "\n"
    ++ "positional arguments:\n"
    ++ "  sources               Schema sources (.graphql/.gql/.graphqls file,\n"
    ++ "                        directory, or raw SDL)\n"
    ++ "\n"
    ++ "options:\n"
    ++ "  -h, --help            show this help message and exit\n"
    ++ "  --all                 Merge every object type sharing a name, not only\n"
    ++ "                        Query/Mutation/Subscription\n"
    ++ "  --dedupe              Drop fields repeated with an identical signature\n"
    ++ "                        inside merged types\n"
    ++ "  --validate            Build the merged schema and fail on conflicting field\n"
    ++ "                        definitions\n"
    ++ "  -o OUTPUT, --output OUTPUT\n"
    ++ "                        Write merged SDL to this file instead of stdout\n"
    ++ "  -v, --verbose         Increase verbosity (-v for INFO, -vv for DEBUG)\n"

/-! ## Outcomes -/

/-- How a run ends: with an exit code, or broken off with a message. -/
inductive Ending
  | exit (code : Nat)
  | broken (message : Text)
  deriving DecidableEq, Repr

/-- What a run leaves behind. -/
structure Outcome where
  ending : Ending
  output : Text
  errors : Text
  tree : FileTree

/-- A run that fails with an exit code and leaves the files alone. -/
def Outcome.failed (tree : FileTree) (code : Nat) (errors : Text) : Outcome :=
  ⟨.exit code, [], errors, tree⟩

/-! ## The preview -/

/-- The line around a preview. -/
def rule : Text :=
  List.replicate 50 '='

/-- Names with their numbers, from `first` on; what has no name is shown as `None`. -/
def numbered : Nat → List (Option Text) → List Text
  | _, [] => []
  | first, name :: rest =>
      (Text.ofNat first ++ ". " ++ name.getD "None") :: numbered (first + 1) rest

/-- The lines for names: if there are more than ten, only the first and the last five are
    shown. -/
def previewNames (names : List (Option Text)) : List Text :=
  if names.length ≤ 10 then numbered 1 names
  else
    numbered 1 (names.take 5)
      ++ ["... (" ++ Text.ofNat (names.length - 10) ++ " more definitions) ..."]
      ++ numbered (names.length - 4) (names.drop (names.length - 5))

/-- The names of the gathered types in one line. -/
def mergedLine (stitched : Stitched) : Text :=
  let names := stitched.mergedNames.filterMap id
  let shown : Text := if names.isEmpty then ("(none)" : Text) else Text.join ", " names
  "Merged types: " ++ shown

/-- The report that shows what a result holds. -/
def preview (stitched : Stitched) : Log :=
  let lines : List Text :=
    ("Merged schema:" : Text) :: rule :: mergedLine stitched :: previewNames stitched.restNames
  (lines ++ [rule]).map fun line => ⟨.info, line⟩

/-! ## Running -/

/-- Why a run ends without a result. -/
inductive RunError
  | loading (error : LoadError)
  | job (error : JobError)

/-- The message of a run without a result. -/
def RunError.message : RunError → Text
  | .loading error => error.message
  | .job error => error.message

namespace Arguments

/-- The least level of a record that is shown. -/
def level (arguments : Arguments) : LogLevel :=
  match arguments.verbosity with
  | 0 => .warning
  | 1 => .info
  | _ => .debug

/-- How to stitch. -/
def options (arguments : Arguments) : Options :=
  { mergeAll := arguments.all, dedupe := arguments.dedupe }

/-- The job on the given texts. -/
def job (arguments : Arguments) (texts : List Text) : Job :=
  ⟨texts, arguments.options, arguments.validate⟩

/-- What the sources are stitched into. -/
def result (arguments : Arguments) (tree : FileTree) : Except RunError Stitched := do
  let texts ← (tree.loadAll arguments.sources).mapError .loading
  (arguments.job texts).run.mapError .job

/-- The report on the way to a result. -/
def log (arguments : Arguments) (tree : FileTree) : Log :=
  tree.loadAllLog arguments.sources ++
    match tree.loadAll arguments.sources with
    | .error _ => []
    | .ok texts => (arguments.job texts).log

/-- The records that are shown. -/
def shown (arguments : Arguments) (log : Log) : Text :=
  (log.atLeast arguments.level).print

/-- A run that fails behind the given report. -/
def failed (arguments : Arguments) (tree : FileTree) (log : Log) (message : Text) : Outcome :=
  .failed tree 1 (arguments.shown (log ++ [⟨.error, message⟩]))

end Arguments

/-- The text with a line end behind it, unless it ends a line already. -/
def endLine (text : Text) : Text :=
  if text.getLast? = some '\n' then text else text ++ "\n"

/-- Hand a result out: it is printed, or written to the file that is named for it. -/
def deliver (arguments : Arguments) (tree : FileTree) (log : Log) (stitched : Stitched) :
    Outcome :=
  let text := stitched.print
  if arguments.output.isEmpty then ⟨.exit 0, text ++ "\n", arguments.shown log, tree⟩
  else
    match tree.write arguments.output (Utf8.encode (endLine text)) with
    | .ok changed =>
        let notice := "Merged schema written to: " ++ arguments.output ++ "\n"
        ⟨.exit 0, [], arguments.shown log ++ notice, changed⟩
    | .error .nullCharacter =>
        let message := PathFault.nullCharacter.message arguments.output
        ⟨.broken message, [], arguments.shown log, tree⟩
    | .error fault => arguments.failed tree log (fault.message arguments.output)

/-- Run with arguments. -/
def Arguments.run (arguments : Arguments) (tree : FileTree) : Outcome :=
  let log := arguments.log tree
  match arguments.result tree with
  | .error error => arguments.failed tree log error.message
  | .ok stitched => deliver arguments tree (log ++ preview stitched) stitched

/-- Run the program with the words of a command line. -/
def run (tree : FileTree) (words : List Text) : Outcome :=
  match Arguments.read words with
  | .error error =>
      .failed tree 2 (usage ++ "gql-compose: error: " ++ error.message ++ "\n")
  | .ok none => ⟨.exit 0, help, [], tree⟩
  | .ok (some arguments) => arguments.run tree

end SchemaStitch.CommandLine

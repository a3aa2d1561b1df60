import SchemaStitch.FileTree
import SchemaStitch.Log
import SchemaStitch.Text.Blank

/-! # Loading texts

    What is stitched together is named by texts: the path of a file, the path of a
    directory, or the schema text itself.  A directory stands for every schema file below
    it that is not blank. -/

namespace SchemaStitch

/-- How the names of schema files end. -/
def schemaEndings : List Text :=
  [".graphql", ".gql", ".graphqls"]

/-- Whether a name is that of a schema file. -/
def isSchemaName (name : Text) : Bool :=
  schemaEndings.any fun ending => ending.isSuffixOf name

/-- The schema files below a directory with their paths, in the order of a walk. -/
def Directory.schemaFiles (path : Text) (directory : Directory) : List (Text × Bytes) :=
  (directory.walk path).filter fun file => isSchemaName file.1

/-- The text of a file: every line end becomes a line feed. -/
def readFile (content : Bytes) : Except Utf8.Fault Text :=
  (Utf8.decode content).map Text.unifyNewlines

/-- Why what is named has no text. -/
inductive LoadError
  | missing (path : Text)
  | noFiles (path : Text)
  | undecodable (fault : Utf8.Fault)
  deriving DecidableEq, Repr

/-- The message about what has no text. -/
def LoadError.message : LoadError → Text
  | .missing path => "File not found: " ++ path
  | .noFiles path => "No GraphQL files found in directory: " ++ path
  | .undecodable fault => fault.message

namespace FileTree

/-- The texts that one name stands for. -/
def load (tree : FileTree) (name : Text) : Except LoadError (List Text) :=
  match tree.look? name with
  | some (.file content) => ((readFile content).map fun text => [text]).mapError .undecodable
  | some (.directory directory) => do
      let texts ← ((directory.schemaFiles name).mapM fun file => readFile file.2).mapError
        .undecodable
      match texts.filter fun text => !text.isAllBlank with
      | [] => .error (.noFiles name)
      | kept => .ok kept
  | none => if isSchemaName name then .error (.missing name) else .ok [name]

/-- The texts that names stand for, in order; the first name without a text decides the
    error. -/
def loadAll (tree : FileTree) : List Text → Except LoadError (List Text)
  | [] => .ok []
  | name :: rest => do
      let texts ← tree.load name
      let others ← tree.loadAll rest
      pure (texts ++ others)

end FileTree

/-! ## Reports -/

/-- The report on reading a file. -/
def readingRecord (path : Text) : LogRecord :=
  ⟨.info, "Reading " ++ path⟩

/-- The report on reading the files of a directory, up to the first that is no text. -/
def filesLog : List (Text × Bytes) → Log
  | [] => []
  | (path, content) :: rest =>
      readingRecord path ::
        match readFile content with
        | .error _ => []
        | .ok text =>
            if text.isAllBlank then ⟨.warning, "Skipping empty file " ++ path⟩ :: filesLog rest
            else filesLog rest

namespace FileTree

/-- The report on loading what one name stands for. -/
def loadLog (tree : FileTree) (name : Text) : Log :=
  match tree.look? name with
  | some (.file _) => [readingRecord name]
  | some (.directory directory) => filesLog (directory.schemaFiles name)
  | none => []

/-- The report on loading what names stand for, up to the first without a text. -/
def loadAllLog (tree : FileTree) : List Text → Log
  | [] => []
  | name :: rest =>
      tree.loadLog name ++ match tree.load name with
        | .error _ => []
        | .ok _ => tree.loadAllLog rest

end FileTree

end SchemaStitch

import SchemaStitch.Keyed
import SchemaStitch.Text.Printable
import SchemaStitch.Text.Utf8

/-! # File trees

    A file tree is a value: directories hold files and directories by name, and one
    directory is where relative paths start.  No two files of a directory have one name,
    and no two directories in it.  That is part of what a directory is: whatever puts files
    and directories into it keeps to that.  The order in which it lists its entries means
    nothing; `Directory.walk` puts them into an order of its own.

    Paths are resolved step by step, so `missing/../a` names nothing even where `a`
    does. -/

namespace SchemaStitch

/-! ## Directories -/

/-- A catalog: files, and by the names of directories what is in these. -/
inductive Catalog where
  | of (files : List (Text × Bytes)) (directories : List (Text × Catalog))

namespace Catalog

/-- The files of a catalog itself. -/
def files : Catalog → Keyed Bytes
  | .of files _ => files

/-- The catalogs of the directories in a catalog. -/
def directories : Catalog → Keyed Catalog
  | .of _ directories => directories

/-- In a catalog and in those below it, a name is given to one file and to one directory at
    most. -/
inductive Distinct : Catalog → Prop
  | of {files : Keyed Bytes} {directories : Keyed Catalog} :
      (Keyed.names files).Nodup → (Keyed.names directories).Nodup →
      (∀ entry ∈ directories, Distinct entry.2) → Distinct (.of files directories)

variable {catalog : Catalog}

/-- Files of one directory have distinct names. -/
theorem Distinct.files (h : catalog.Distinct) : (Keyed.names catalog.files).Nodup := by
  cases h with
  | of hfiles _ _ => exact hfiles

/-- Directories in one directory have distinct names. -/
theorem Distinct.directories (h : catalog.Distinct) :
    (Keyed.names catalog.directories).Nodup := by
  cases h with
  | of _ hdirectories _ => exact hdirectories

/-- What is in a directory of a well-formed one is well formed. -/
theorem Distinct.inner (h : catalog.Distinct) {entry : Text × Catalog}
    (hentry : entry ∈ catalog.directories) : entry.2.Distinct := by
  cases h with
  | of _ _ hbelow => exact hbelow entry hentry

end Catalog

/-- A directory: a catalog in which no name is given to two files or to two directories. -/
structure Directory where
  catalog : Catalog
  distinct : catalog.Distinct

/-- What a name in a directory stands for. -/
inductive Node where
  | file (content : Bytes)
  | directory (directory : Directory)

namespace Directory

/-- The files of a directory itself. -/
def files (directory : Directory) : Keyed Bytes :=
  directory.catalog.files

/-- The directories in a directory. -/
def directories (directory : Directory) : Keyed Directory :=
  directory.catalog.directories.attach.map fun entry =>
    (entry.1.1, ⟨entry.1.2, directory.distinct.inner entry.2⟩)

/-- The catalogs of directories by name. -/
def catalogs (directories : Keyed Directory) : Keyed Catalog :=
  directories.map fun entry => (entry.1, entry.2.catalog)

/-- Directories keep their names when what they carry is forgotten. -/
theorem names_catalogs (directories : Keyed Directory) :
    Keyed.names (catalogs directories) = Keyed.names directories := by
  rw [Keyed.names, catalogs, List.map_map]
  rfl

/-- The directory with files and directories in it, each given by its name. -/
def of (files : Keyed Bytes) (directories : Keyed Directory)
    (hfiles : (Keyed.names files).Nodup := by first | exact Keyed.nodup_nil | decide)
    (hdirectories : (Keyed.names directories).Nodup := by first | exact Keyed.nodup_nil | decide) :
    Directory where
  catalog := .of files (catalogs directories)
  distinct := by
    refine .of hfiles (by rwa [names_catalogs]) fun entry hentry => ?_
    obtain ⟨inner, -, rfl⟩ := List.mem_map.mp hentry
    exact inner.2.distinct

/-- The directory with nothing in it. -/
def empty : Directory := of [] []

/-! ## Names stay apart -/

variable {directory : Directory}

theorem nodup_files (directory : Directory) : (Keyed.names directory.files).Nodup :=
  directory.distinct.files

/-- The directories in a directory are its catalogs, with what is known of them. -/
theorem catalogs_directories (directory : Directory) :
    catalogs directory.directories = directory.catalog.directories := by
  rw [catalogs, directories, List.map_map]
  exact List.attach_map_subtype_val _

theorem nodup_directories (directory : Directory) :
    (Keyed.names directory.directories).Nodup := by
  rw [← names_catalogs, catalogs_directories]
  exact directory.distinct.directories

/-- Directories are told apart by their catalogs. -/
theorem catalogs_inj {directories others : Keyed Directory}
    (h : catalogs directories = catalogs others) : directories = others := by
  refine (List.map_inj_right ?_).mp h
  rintro ⟨name, catalog, _⟩ ⟨other, _, _⟩ heq
  cases heq
  rfl

/-- The directories that a directory is made of are those in it. -/
@[simp]
theorem directories_of (files : Keyed Bytes) (directories : Keyed Directory)
    (hfiles : (Keyed.names files).Nodup) (hdirectories : (Keyed.names directories).Nodup) :
    (of files directories hfiles hdirectories).directories = directories :=
  catalogs_inj (catalogs_directories _)

/-- Induction on a directory: what holds of the directories in a directory holds of it. -/
@[elab_as_elim]
theorem induct {P : Directory → Prop}
    (of : ∀ directory : Directory, (∀ entry ∈ directory.directories, P entry.2) → P directory)
    (directory : Directory) : P directory := by
  obtain ⟨catalog, hdistinct⟩ := directory
  induction hdistinct with
  | of hfiles hdirectories hbelow ih =>
      refine of _ fun entry hentry => ?_
      obtain ⟨inner, -, rfl⟩ := List.mem_map.mp hentry
      exact ih inner.1 inner.2

/-! ## Names in a directory -/

/-- The file of a name. -/
def file? (name : Text) (directory : Directory) : Option Bytes :=
  Keyed.get? name directory.files

/-- The directory of a name. -/
def directory? (name : Text) (directory : Directory) : Option Directory :=
  Keyed.get? name directory.directories

/-- What a name stands for. -/
def node? (name : Text) (directory : Directory) : Option Node :=
  match directory.file? name with
  | some content => some (.file content)
  | none => (directory.directory? name).map .directory

/-- The directory that names lead to, each in the one before. -/
def at? : List Text → Directory → Option Directory
  | [], directory => some directory
  | name :: rest, directory => (directory.directory? name).bind (at? rest)

/-- Set the content of a file in the directory that names lead to; directories that are
    not there are made. -/
def put (name : Text) (content : Bytes) : List Text → Directory → Directory
  | [], directory =>
      of (Keyed.set name content directory.files) directory.directories
        (Keyed.nodup_names_set name content directory.nodup_files) directory.nodup_directories
  | inner :: rest, directory =>
      of directory.files
        (Keyed.alter inner (fun old => put name content rest (old.getD empty))
          directory.directories)
        directory.nodup_files (Keyed.nodup_names_alter inner directory.nodup_directories)

/-- Make the directory that names lead to, unless it is there. -/
def make : List Text → Directory → Directory
  | [], directory => directory
  | inner :: rest, directory =>
      of directory.files
        (Keyed.alter inner (fun old => make rest (old.getD empty)) directory.directories)
        directory.nodup_files (Keyed.nodup_names_alter inner directory.nodup_directories)

/-! ## Walking -/

/-- The path of a name in the directory of a path. -/
def joinPath (path : Text) (name : Text) : Text :=
  if path.isEmpty || path.getLast? = some '/' then path ++ name else path ++ "/" ++ name

/-- Entries in the order of their names. -/
def sortedByName {α : Type} (entries : Keyed α) : Keyed α :=
  sortedBy (fun first second => Text.atMost first.1 second.1) entries

end Directory

mutual

/-- The files of a catalog with their paths: its own in the order of their names, then those
    of each directory in it, in the order of the names again. -/
def Catalog.walk (path : Text) : Catalog → List (Text × Bytes)
  | .of files directories =>
      (Directory.sortedByName files).map
          (fun (name, content) => (Directory.joinPath path name, content))
        ++ (Directory.sortedByName (walks path directories)).flatMap Prod.snd

/-- The files of each of several catalogs, by the name of the directory. -/
def Catalog.walks (path : Text) :
    List (Text × Catalog) → List (Text × List (Text × Bytes))
  | [] => []
  | (name, catalog) :: rest =>
      (name, catalog.walk (Directory.joinPath path name)) :: walks path rest

end

/-- The files below a directory with their paths. -/
def Directory.walk (path : Text) (directory : Directory) : List (Text × Bytes) :=
  directory.catalog.walk path

/-! ## Paths -/

/-- A path: the steps between its slashes, and whether a slash stands in front of them or
    behind them. -/
structure Path where
  absolute : Bool
  steps : List Text
  slashed : Bool
  deriving DecidableEq, Repr

/-- The path that a text spells; slashes in a row count as one. -/
def Path.ofText (text : Text) : Path where
  absolute := text.head? = some '/'
  steps := (Text.split '/' text).filter fun step => !step.isEmpty
  slashed := text.getLast? = some '/'

/-- The step that stays where it is. -/
def Path.stay : Text := ['.']

/-- The step to the directory around. -/
def Path.up : Text := ['.', '.']

/-- Whether a step names no entry. -/
def Path.isDots (step : Text) : Bool :=
  step = Path.stay || step = Path.up

/-- How many bytes a name may have. -/
def Path.longestName : Nat := 255

/-- How many bytes a path may have. -/
def Path.longestPath : Nat := 4095

/-- Whether a text takes more bytes than a limit. -/
def Path.exceeds (limit : Nat) (text : Text) : Bool :=
  limit < (Utf8.encode text).length

/-- Why a path does not lead to where something can be written. -/
inductive PathFault
  | missing
  | notDirectory
  | isDirectory
  | nameTooLong
  | nullCharacter
  deriving DecidableEq, Repr

/-- The message about a path that cannot be written to. -/
def PathFault.message (path : Text) : PathFault → Text
  | .missing => "[Errno 2] No such file or directory: " ++ path.quoted
  | .notDirectory => "[Errno 20] Not a directory: " ++ path.quoted
  | .isDirectory => "[Errno 21] Is a directory: " ++ path.quoted
  | .nameTooLong => "[Errno 36] File name too long: " ++ path.quoted
  | .nullCharacter => "embedded null byte"

/-- A file tree: its root, and the names that lead from there to where relative paths
    start. -/
structure FileTree where
  root : Directory
  here : List Text

namespace FileTree

/-- What a name stands for in the directory that names lead to. -/
def node? (tree : FileTree) (place : List Text) (name : Text) : Option Node :=
  (tree.root.at? place).bind (·.node? name)

/-- One step from a directory to a directory. -/
def enter (tree : FileTree) (place : List Text) (step : Text) : Except PathFault (List Text) :=
  if step = Path.stay then .ok place
  else if step = Path.up then .ok place.dropLast
  else if Path.exceeds Path.longestName step then .error .nameTooLong
  else match tree.node? place step with
    | none => .error .missing
    | some (.file _) => .error .notDirectory
    | some (.directory _) => .ok (place ++ [step])

/-- The directory that all steps of a path but the last lead to. -/
def parent (tree : FileTree) (path : Path) : Except PathFault (List Text) :=
  path.steps.dropLast.foldlM tree.enter (if path.absolute then [] else tree.here)

/-- What a path stands for. -/
def look? (tree : FileTree) (text : Text) : Option Node :=
  if text.isEmpty || Path.exceeds Path.longestPath text then none
  else
    let path := Path.ofText text
    match path.steps.getLast?, tree.parent path with
    | _, .error _ => none
    | none, .ok place => (tree.root.at? place).map .directory
    | some step, .ok place =>
        if Path.isDots step then
          match tree.enter place step with
          | .error _ => none
          | .ok place => (tree.root.at? place).map .directory
        else
          match tree.node? place step with
          | some (.file content) => if path.slashed then none else some (.file content)
          | other => other

/-- The directory and the name that a path names for writing: the name is new or that of
    a file. -/
def target (tree : FileTree) (text : Text) : Except PathFault (List Text × Text) :=
  if text.contains '\x00' then .error .nullCharacter
  else if text.isEmpty then .error .missing
  else if Path.exceeds Path.longestPath text then .error .nameTooLong
  else
    let path := Path.ofText text
    match path.steps.getLast? with
    | none => .error .isDirectory
    | some step => do
        let place ← tree.parent path
        if path.slashed || Path.isDots step then .error .isDirectory
        else if Path.exceeds Path.longestName step then .error .nameTooLong
        else match tree.node? place step with
          | some (.directory _) => .error .isDirectory
          | _ => .ok (place, step)

/-- Set the content of the file that a path names. -/
def write (tree : FileTree) (text : Text) (content : Bytes) : Except PathFault FileTree :=
  (tree.target text).map fun (place, name) =>
    { tree with root := tree.root.put name content place }

end FileTree

end SchemaStitch

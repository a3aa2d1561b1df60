import SchemaStitch.CommandLine

/-! # The program

    The only module that touches files and streams.  It reads what the words of the
    command line may name into a file tree, runs, and carries out what the outcome says. -/

namespace SchemaStitch.Main

/-- The names that lead from the root to where a path leads, if every step is taken as it
    is written. -/
def placeOf (here : List Text) (path : Path) : List Text :=
  path.steps.foldl
    (fun place step =>
      if step = Path.stay then place else if step = Path.up then place.dropLast
      else place ++ [step])
    (if path.absolute then [] else here)

/-- A path from the root, as text. -/
def spelled (place : List Text) : String :=
  String.ofList ('/' :: Text.join ['/'] place)

/-- Add a file of the disk to a directory. -/
def addFile (place : List Text) (root : Directory) : IO Directory := do
  match place.getLast? with
  | none => pure root
  | some name =>
      let content ← IO.FS.readBinFile (spelled place)
      pure (root.put name content.data.toList place.dropLast)

/-- Add what a path of the disk names to a directory: a file, or a directory with all that
    is below it if `deep` says so. -/
def addPlace (deep : Bool) (root : Directory) (place : List Text) : IO Directory := do
  let path := (← IO.currentDir) / spelled place
  if ← path.isDir then
    let mut root := root.make place
    if deep then
      for found in ← path.walkDir do
        let inner := (Path.ofText found.toString.toList).steps
        if ← found.isDir then root := root.make inner
        else root ← addFile inner root
    pure root
  else if ← path.pathExists then addFile place root
  else pure root

/-- Add to a tree what a word may name: the directories on the way and what stands at the
    end of it. -/
def addWord (tree : FileTree) (word : Text) : IO FileTree := do
  let path := Path.ofText word
  let mut root := tree.root
  for count in List.range path.steps.length do
    root ← addPlace false root (placeOf tree.here { path with steps := path.steps.take count })
  root ← addPlace true root (placeOf tree.here path)
  pure { tree with root }

/-- The file tree that words of a command line may name parts of. -/
def readTree (words : List Text) : IO FileTree := do
  let here := (Path.ofText (← IO.currentDir).toString.toList).steps
  words.foldlM addWord ⟨Directory.empty.make here, here⟩

/-- Write the file that an outcome holds under a name. -/
def store (tree : FileTree) (name : Text) : IO Unit := do
  match tree.look? name with
  | some (.file content) =>
      IO.FS.writeBinFile (String.ofList name) ⟨content.toArray⟩
  | _ => pure ()

end SchemaStitch.Main

open SchemaStitch in
/-- Run the program with the words of the command line. -/
def main (arguments : List String) : IO UInt32 := do
  let words := arguments.map String.toList
  let outcome := CommandLine.run (← Main.readTree words) words
  (← IO.getStdout).putStr (String.ofList outcome.output)
  (← IO.getStderr).putStr (String.ofList outcome.errors)
  match outcome.ending, CommandLine.Arguments.read words with
  | .broken message, _ =>
      IO.eprintln (String.ofList message)
      pure 1
  | .exit 0, .ok (some given) =>
      if !given.output.isEmpty then Main.store outcome.tree given.output
      pure 0
  | .exit code, _ => pure (UInt32.ofNat code)

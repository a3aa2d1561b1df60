import SchemaStitch.Comment
import SchemaStitch.Options
import SchemaStitch.Conflict
import SchemaStitch.Source

/-! # Stitching documents together

    Object types that take part are gathered by name: the first definition of a name
    opens a group, and the members of later ones are added to it.  The root types come
    first, in the order of the options, and any other group in the order in which its
    name comes first.  Schema declarations are dropped and one is made anew.
    Everything else passes through in order.

    Descriptions become comments on the way. -/

namespace SchemaStitch

/-! ## Groups -/

/-- Groups of object types by name.  A name may have a place before anything belongs to
    it. -/
abbrev Groups := Keyed (Option Block)

namespace Groups

/-- Give a name a place, unless it has one. -/
def reserve (name : Text) (groups : Groups) : Groups :=
  if groups.any fun group => group.1 == name then groups else groups ++ [(name, none)]

/-- Places for names, in order. -/
def ofNames (names : List Text) : Groups :=
  names.foldl (fun groups name => groups.reserve name) []

/-- Add an object type to the group of its name: it opens the group, or its members go
    behind those that are there. -/
def add (block : Block) (groups : Groups) : Groups :=
  Keyed.alter block.name
    (fun group => some (match group.join with
      | none => block
      | some first => { first with members := first.members ++ block.members }))
    groups

/-- The groups that something belongs to, in order. -/
def blocks (groups : Groups) : List Block :=
  groups.filterMap Prod.snd

/-- Whether something belongs to the group of a name. -/
def isOpen (name : Text) (groups : Groups) : Bool :=
  groups.any fun group => group.1 == name && group.2.isSome

end Groups

/-- An object type with the descriptions of its members turned into comments. -/
def Block.withCommentedMembers (block : Block) : Block :=
  { block with members := Entry.commented block.members }

/-- The object types among entries that are gathered, in order. -/
def Options.contributions (options : Options) (entries : List (Entry Definition)) : List Block :=
  (Entry.nodes entries).filterMap options.gathered?

/-- The gathered object types, one for each name. -/
def Options.groups (options : Options) (entries : List (Entry Definition)) : List Block :=
  let contributions := (options.contributions entries).map Block.withCommentedMembers
  (contributions.foldl (fun groups block => groups.add block)
    (Groups.ofNames options.rootTypes.names)).blocks

/-- Drop repeated members of a gathered object type if the options ask for it. -/
def Options.dedupeGroup (options : Options) (block : Block) : Block :=
  if options.dedupe then { block with members := Member.dedupe block.members } else block

/-- The gathered object types as entries, each behind the comments for its description. -/
def Options.merged (options : Options) (entries : List (Entry Definition)) :
    List (Entry Definition) :=
  Entry.commented
    ((options.groups entries).map fun block =>
      .node (.type (.block (options.dedupeGroup block))))

/-- Whether an entry passes through: it is neither gathered nor a schema declaration. -/
def Options.passes (options : Options) : Entry Definition → Bool
  | .comment _ => true
  | .node definition => (options.gathered? definition).isNone && !definition.isSchema

/-- The entries that pass through, the descriptions of their members turned into
    comments. -/
def Options.rest (options : Options) (entries : List (Entry Definition)) :
    List (Entry Definition) :=
  (entries.filter options.passes).map (Entry.map Definition.withCommentedMembers)

/-! ## The result -/

/-- What stitching yields before it is printed. -/
structure Stitched where
  schema : SchemaBlock
  merged : List (Entry Definition)
  rest : List (Entry Definition)
  deriving Repr

/-- Stitch the entries of documents together. -/
def Options.stitch (options : Options) (entries : List (Entry Definition)) :
    Except UnknownOperation Stitched := do
  let merged := options.merged entries
  let schema ← options.rootTypes.schema merged
  pure { schema, merged, rest := options.rest entries }

namespace Stitched

/-- The names of the gathered types. -/
def mergedNames (stitched : Stitched) : List (Option Text) :=
  (Entry.nodes stitched.merged).map Definition.name?

/-- The names of the definitions that pass through; some have none. -/
def restNames (stitched : Stitched) : List (Option Text) :=
  (Entry.nodes stitched.rest).map Definition.name?

/-- The printed blocks: the schema declaration with the gathered types, then every entry
    that passes through, its description turned into comments. -/
def blocks (stitched : Stitched) : List Text :=
  printEntries (.node (.schema stitched.schema) :: stitched.merged)
    :: stitched.rest.map fun entry => printEntries (Entry.withComments entry.documented)

/-- The result as text. -/
def print (stitched : Stitched) : Text :=
  Text.join "\n\n" stitched.blocks

/-- The result as a sequence of entries. -/
def entries (stitched : Stitched) : List (Entry Definition) :=
  .node (.schema stitched.schema) :: stitched.merged ++ stitched.rest

end Stitched

/-! ## From sources to text -/

/-- Why sources cannot be stitched together. -/
inductive StitchError
  | source (error : SourceError)
  | operation (error : UnknownOperation)
  deriving DecidableEq, Repr

/-- The message of a failed stitching. -/
def StitchError.message : StitchError → Text
  | .source error => error.message
  | .operation error => error.message

/-- Stitch sources together, with the texts that they were read from. -/
def Options.stitchSources (options : Options) (sources : List Source) :
    Except StitchError (Stitched × List Text) := do
  let document ← ((Source.readAll sources).mapError StitchError.source).map Document.concat
  let stitched ← (options.stitch document.entries).mapError StitchError.operation
  pure (stitched, document.sources)

/-- The text that sources are stitched into. -/
def Options.stitchText (options : Options) (sources : List Source) : Except StitchError Text :=
  (options.stitchSources sources).map fun result => result.1.print

/-! ## Reports -/

/-- The report on gathering object types into groups. -/
def gatherLog (groups : Groups) : List Block → Log
  | [] => []
  | block :: rest =>
      let count := Text.ofNat block.members.length
      ⟨.debug,
        if groups.isOpen block.name then "Appending " ++ count ++ " fields to " ++ block.name
        else "New merge group " ++ block.name ++ " with " ++ count ++ " fields"⟩
        :: gatherLog (groups.add block) rest

/-- The report on the members that are dropped from the groups. -/
def Options.dedupeLog (options : Options) (entries : List (Entry Definition)) : Log :=
  if options.dedupe then
    (options.groups entries).flatMap fun block => Member.dedupeLog block.members
  else []

/-- The report on a stitching that succeeded. -/
def Stitched.log (stitched : Stitched) (entries : List (Entry Definition)) : Log :=
  let dropped := ((Entry.nodes entries).filter Definition.isSchema).length
  let objects := ((Entry.nodes stitched.rest).filterMap Definition.object?).length
  (if dropped = 0 then []
    else [⟨.debug, "Dropped " ++ Text.ofNat dropped ++ " schema declarations from inputs"⟩])
    ++ [⟨.info, "Merged " ++ Text.ofNat (Entry.nodes stitched.merged).length ++ " types, "
        ++ Text.ofNat stitched.rest.length ++ " pass-through definitions ("
        ++ Text.ofNat objects ++ " object types)"⟩]

/-- The report on stitching entries together. -/
def Options.stitchLog (options : Options) (entries : List (Entry Definition)) : Log :=
  gatherLog (Groups.ofNames options.rootTypes.names) (options.contributions entries)
    ++ options.dedupeLog entries
    ++ match options.stitch entries with
      | .error _ => []
      | .ok stitched => stitched.log entries

/-- The report on stitching sources together. -/
def Options.sourcesLog (options : Options) (sources : List Source) : Log :=
  match Source.readAll sources with
  | .error _ => []
  | .ok documents =>
      readLog documents ++ options.stitchLog (Document.concat documents).entries

end SchemaStitch

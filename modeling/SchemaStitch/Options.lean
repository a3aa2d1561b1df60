import SchemaStitch.Document
import SchemaStitch.Keyed
import SchemaStitch.Text.Printable

/-! # Options and the schema declaration

    Every stitched document has one schema declaration, made anew: it lists the root
    operations whose types are there.  Which type serves which operation is part of the
    options. -/

namespace SchemaStitch

/-- Type names by operation, in the order in which a schema declaration lists them. -/
abbrev RootTypes := Keyed Text

namespace RootTypes

/-- The customary root types. -/
def default : RootTypes :=
  [("query", "Query"), ("mutation", "Mutation"), ("subscription", "Subscription")]

/-- The root types that pairs name one after the other; an operation that comes again
    keeps its place. -/
def ofPairs (pairs : List (Text × Text)) : RootTypes :=
  pairs.foldl (fun roots pair => Keyed.set pair.1 pair.2 roots) []

/-- The type for an operation. -/
def type? (operation : Text) (roots : RootTypes) : Option Text :=
  Keyed.get? operation roots

/-- The names of the root types, in order. -/
def names (roots : RootTypes) : List Text :=
  roots.map Prod.snd

end RootTypes

/-- How to stitch: whether every object type is gathered by name or root types only,
    whether repeated members are dropped, and which types are the root types. -/
structure Options where
  mergeAll : Bool := false
  dedupe : Bool := false
  rootTypes : RootTypes := RootTypes.default
  deriving Repr

/-- The object type of a definition that takes part in gathering: every object type does
    if `all` says so, else those with one of the given names. -/
def Definition.gathered? (all : Bool) (names : List Text) (definition : Definition) :
    Option Block :=
  definition.object?.filter fun block => all || names.contains block.name

/-- The object type that a definition contributes to the gathered ones. -/
def Options.gathered? (options : Options) (definition : Definition) : Option Block :=
  definition.gathered? options.mergeAll options.rootTypes.names

/-- A word that names no operation although a root type is given for it. -/
structure UnknownOperation where
  word : Text
  deriving DecidableEq, Repr

/-- The message about a word that names no operation. -/
def UnknownOperation.message (error : UnknownOperation) : Text :=
  error.word.quoted ++ " is not a valid OperationType"

/-- The root operations whose types are among the given names; the first word that names
    no operation decides the error. -/
def RootTypes.operations (present : List Text) :
    RootTypes → Except UnknownOperation (List RootOperation)
  | [] => .ok []
  | (word, type) :: rest =>
      if present.contains type then
        match OperationKind.ofKeyword? word with
        | none => .error ⟨word⟩
        | some operation => do
            let others ← RootTypes.operations present rest
            pure (⟨operation, type⟩ :: others)
      else RootTypes.operations present rest

/-- The schema declaration for definitions: the root operations whose types are there, or
    the query operation alone if there are none. -/
def RootTypes.schema (roots : RootTypes) (entries : List (Entry Definition)) :
    Except UnknownOperation SchemaBlock := do
  let operations ← roots.operations ((Entry.nodes entries).filterMap Definition.name?)
  let operations :=
    if operations.isEmpty then [⟨.query, (roots.type? "query").getD "Query"⟩] else operations
  pure { description := none, directives := [], operations }

end SchemaStitch

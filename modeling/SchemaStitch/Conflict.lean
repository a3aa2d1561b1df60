import SchemaStitch.Document.Printer
import SchemaStitch.Keyed
import SchemaStitch.Log

/-! # Signatures and conflicts

    Two members of a type say the same iff they have the same name and the same printed
    form once their own descriptions are left out.  That printed form is the signature.
    Dropping a member that repeats an earlier one takes along the comments in front of
    it.

    A type that declares a member name with two different signatures contradicts itself.
    Each such name is one conflict, and it lists the signatures in the order in which
    they come first. -/

namespace SchemaStitch

/-! ## Signatures -/

/-- The printed form of a member without its own description. -/
def Member.signature (member : Member) : Text :=
  member.withoutDescription.print

/-- What decides whether two members say the same. -/
def Member.key (member : Member) : Text × Text :=
  (member.name, member.signature)

/-- Drop members whose key was seen already, where `pending` holds the comments since the
    last member. -/
def Member.dedupeFrom (seen : List (Text × Text)) (pending : List Text) :
    List (Entry Member) → List (Entry Member)
  | [] => pending.map .comment
  | .comment line :: rest => dedupeFrom seen (pending ++ [line]) rest
  | .node member :: rest =>
      if seen.contains member.key then dedupeFrom seen [] rest
      else pending.map .comment ++ .node member :: dedupeFrom (member.key :: seen) [] rest

/-- The entries without the members that repeat an earlier one, and without the comments
    in front of those. -/
def Member.dedupe (entries : List (Entry Member)) : List (Entry Member) :=
  dedupeFrom [] [] entries

/-- The members that repeat an earlier one, where some keys were seen already. -/
def Member.repeatedFrom (seen : List (Text × Text)) : List Member → List Member
  | [] => []
  | member :: rest =>
      if seen.contains member.key then member :: repeatedFrom seen rest
      else repeatedFrom (member.key :: seen) rest

/-- The report on the members that `Member.dedupe` drops. -/
def Member.dedupeLog (entries : List (Entry Member)) : Log :=
  (repeatedFrom [] (Entry.nodes entries)).map fun member =>
    ⟨.debug, "Dropping duplicate member " ++ member.signature⟩

/-- The document without the members that repeat an earlier one of their type. -/
def Document.dedupe (document : Document) : Document :=
  { document with
    entries := document.entries.map (Entry.map (Definition.mapMembers Member.dedupe)) }

/-- The report on the members that `Document.dedupe` drops. -/
def Document.dedupeLog (document : Document) : Log :=
  document.definitions.flatMap fun definition =>
    Member.dedupeLog (definition.members?.getD [])

/-! ## Conflicts -/

/-- A member name of a type with its different signatures. -/
structure Conflict where
  type : Text
  member : Text
  signatures : List Text
  deriving DecidableEq, Repr

/-- A conflict in one line, line ends inside signatures apart. -/
def Conflict.message (conflict : Conflict) : Text :=
  conflict.type ++ "." ++ conflict.member ++ ": " ++ Text.join " vs " conflict.signatures

/-- The signatures found for each member name, in the order in which the names come
    first. -/
abbrev SignatureTable := Keyed (List Text)

/-- Add a signature to others behind them, unless it is among them. -/
def addSignature (signature : Text) (found : List Text) : List Text :=
  if found.contains signature then found else found ++ [signature]

/-- Add a signature under its name. -/
def SignatureTable.add (name signature : Text) (table : SignatureTable) : SignatureTable :=
  Keyed.alter name (fun found => addSignature signature (found.getD [])) table

/-- The signatures of members under their names. -/
def SignatureTable.ofMembers (members : List Member) : SignatureTable :=
  members.foldl (fun table member => table.add member.name member.signature) []

/-- The conflicts within one type. -/
def Block.conflicts (block : Block) : List Conflict :=
  (SignatureTable.ofMembers (Entry.nodes block.members)).filterMap fun (name, signatures) =>
    if signatures.length > 1 then some ⟨block.name, name, signatures⟩ else none

/-- The conflicts within the types that a document defines.  Extensions are not looked
    at. -/
def Document.conflicts (document : Document) : List Conflict :=
  (document.definitions.filterMap Definition.block?).flatMap Block.conflicts

end SchemaStitch

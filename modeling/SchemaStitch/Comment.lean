import SchemaStitch.Document
import SchemaStitch.Text.Blank

/-! # Descriptions as comments

    A description is documentation for people.  Here it becomes comment lines in front
    of what it describes, and the description itself goes: the text is printed once, and
    as a comment it cannot change what the document means.

    Only a definition's own description and those of its members are rewritten.
    Descriptions of arguments stay where they are. -/

namespace SchemaStitch

/-- Nodes that may carry a description. -/
class Documented (α : Type) where
  description : α → Option StringLiteral
  withoutDescription : α → α

instance : Documented Member := ⟨Member.description, Member.withoutDescription⟩

instance : Documented Definition := ⟨Definition.description, Definition.withoutDescription⟩

/-- The comment lines for a text: one for each of its lines, without the blanks at its
    end. -/
def commentLines (text : Text) : List Text :=
  text.paragraphLines.map Text.trimEnd

/-- The comment lines for an optional description. -/
def descriptionLines (description : Option StringLiteral) : List Text :=
  match description with
  | none => []
  | some literal => commentLines literal.value

namespace Entry

variable {α : Type} [Documented α]

/-- The description of an entry; a comment has none. -/
def description : Entry α → Option StringLiteral
  | .comment _ => none
  | .node value => Documented.description value

/-- The comment lines for the description of an entry, and the entry without it. -/
def documented (entry : Entry α) : List Text × Entry α :=
  (descriptionLines entry.description, entry.map Documented.withoutDescription)

/-- Comment lines as entries, followed by what they belong to. -/
def withComments (documented : List Text × Entry α) : List (Entry α) :=
  documented.1.map .comment ++ [documented.2]

/-- The entries with their descriptions turned into comments in front of them. -/
def commented (entries : List (Entry α)) : List (Entry α) :=
  entries.flatMap fun entry => withComments entry.documented

end Entry

/-- The definition with the descriptions of its members turned into comments. -/
def Definition.withCommentedMembers (definition : Definition) : Definition :=
  definition.mapMembers Entry.commented

/-- The document with the descriptions of its definitions and of their members turned into
    comments. -/
def Document.commented (document : Document) : Document :=
  { document with
    entries := (Entry.commented document.entries).map (Entry.map Definition.withCommentedMembers) }

end SchemaStitch

import SchemaStitch.Document
import SchemaStitch.Text.Printable

/-! # Excerpts and listings

    Both are shown for diagnosis.  A message about a place in a text ends with an excerpt:
    the place in lines and columns, and the lines around it with a caret under the column.
    A line of more than 120 characters is shown in pieces of 80.

    A listing shows a sequence of entries: how many there are, or for each of them what it
    is and where in its text it was read. -/

namespace SchemaStitch

/-! ## Places -/

/-- A line and a column, both counted from one. -/
structure Place where
  line : Nat
  column : Nat
  deriving DecidableEq, Repr

/-- The place of an offset: the lines before it and the characters before it in its
    line. -/
def Place.of (text : Text) (offset : Nat) : Place :=
  let before := Text.lines (text.take offset)
  ⟨before.length, (before.getLast?.getD []).length + 1⟩

/-! ## Excerpts -/

namespace Excerpt

/-- A row of an excerpt: what stands in the margin, and the text beside it. -/
structure Row where
  margin : Text
  content : Text

/-- The margin of a numbered line. -/
def numbered (n : Nat) : Text :=
  Text.ofNat n ++ " |"

/-- A caret under the given column. -/
def caret (column : Nat) : Row :=
  ⟨"|", Text.padLeft column ['^']⟩

/-- The row of an optional content. -/
def optionalRow (margin : Text) (content : Option Text) : List Row :=
  content.toList.map (Row.mk margin)

/-- A row with its margin padded to a common width; an empty content takes no blank. -/
def Row.print (width : Nat) (row : Row) : Text :=
  Text.padLeft width row.margin ++ if row.content.isEmpty then [] else ' ' :: row.content

/-- The rows under each other, margins padded to the longest. -/
def printRows (rows : List Row) : Text :=
  let width := rows.foldl (fun width row => max width row.margin.length) 0
  Text.join ['\n'] (rows.map (Row.print width))

/-- The rows for a line of ordinary length: the lines before and after it, if there are
    any, and the caret. -/
def neighbourRows (lines : List Text) (place : Place) : List Row :=
  (if place.line ≤ 1 then [] else optionalRow (numbered (place.line - 1)) lines[place.line - 2]?)
    ++ optionalRow (numbered place.line) lines[place.line - 1]?
    ++ caret place.column :: optionalRow (numbered (place.line + 1)) lines[place.line]?

/-- The rows for a long line: its pieces up to the one that holds the column, the caret,
    and the next piece. -/
def pieceRows (line : Text) (place : Place) : List Row :=
  let pieces := Text.chunks 80 line
  let last := place.column / 80
  optionalRow (numbered place.line) pieces.head?
    ++ (pieces.drop 1 |>.take last).map (Row.mk "|")
    ++ caret (place.column % 80) :: optionalRow "|" pieces[last + 1]?

end Excerpt

/-- The excerpt of a text for an offset. -/
def excerpt (text : Text) (offset : Nat) : Text :=
  let place := Place.of text offset
  let lines := text.lines
  let line := lines[place.line - 1]?.getD []
  "GraphQL request:" ++ Text.ofNat place.line ++ ":" ++ Text.ofNat place.column ++ "\n"
    ++ Excerpt.printRows
      (if line.length > 120 then Excerpt.pieceRows line place
       else Excerpt.neighbourRows lines place)

/-! ## Listings -/

/-- What the syntax tree calls the definition of a type. -/
def TypeDefinition.nodeStem : TypeDefinition → Text
  | .scalar _ => "ScalarType"
  | .union _ => "UnionType"
  | .block b => match b.kind with
      | .object => "ObjectType"
      | .interface => "InterfaceType"
      | .input => "InputObjectType"
      | .enum => "EnumType"

/-- What the syntax tree calls a definition. -/
def Definition.nodeName : Definition → Text
  | .schema _ => "SchemaDefinitionNode"
  | .type t => t.nodeStem ++ "DefinitionNode"
  | .directive _ => "DirectiveDefinitionNode"
  | .extendSchema _ => "SchemaExtensionNode"
  | .extendType t => t.nodeStem ++ "ExtensionNode"
  | .operation _ => "OperationDefinitionNode"
  | .fragment _ => "FragmentDefinitionNode"

/-- An entry of a listing: a comment, or a definition with the offsets between which it
    was read. -/
abbrev Listed := Entry (Definition × Nat × Nat)

/-- One entry of a listing. -/
def Listed.show : Listed → Text
  | .comment line => "CommentNode(value=" ++ line.quoted ++ ", kind='comment')"
  | .node (definition, start, stop) =>
      definition.nodeName ++ " at " ++ Text.ofNat start ++ ":" ++ Text.ofNat stop

/-- The entries of a listing in order. -/
def listing (entries : List Listed) : Text :=
  "DefinitionList(nodes=[" ++ Text.join ", " (entries.map Listed.show) ++ "])"

/-- The number of entries. -/
def listingSummary (count : Nat) : Text :=
  "DefinitionList(" ++ Text.ofNat count ++ " nodes)"

end SchemaStitch

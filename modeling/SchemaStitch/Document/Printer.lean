import SchemaStitch.Document
import SchemaStitch.Token
import SchemaStitch.Token.BlockString

/-! # Printing documents

    Each node has one printed form.  Absent parts vanish together with their
    separators; what stands between braces goes on lines of its own, two blanks in.

    Types with members are printed in two ways.  `Definition.print` knows nodes only
    and leaves comments out.  `Definition.printWithComments` puts the body together
    entry by entry, so a comment stands where the document has it; on a definition
    without comments the two agree. -/

namespace SchemaStitch

/-! ## Values and types -/

/-- A character inside double quotes. -/
def escapeCharacter (c : Char) : Text :=
  if c = '"' then "\\\""
  else if c = '\\' then "\\\\"
  else if c = '\x08' then "\\b"
  else if c = '\t' then "\\t"
  else if c = '\n' then "\\n"
  else if c = '\x0C' then "\\f"
  else if c = '\r' then "\\r"
  else if c.toNat < 0x20 || (0x7F ≤ c.toNat && c.toNat < 0xA0) then
    "\\u" ++ (Text.hexadecimal 4 c.toNat).capitals
  else [c]

/-- A text in double quotes. -/
def printString (value : Text) : Text :=
  '"' :: (value.flatMap escapeCharacter ++ ['"'])

/-- A string in the spelling that it was written in. -/
def StringLiteral.print (literal : StringLiteral) : Text :=
  if literal.isBlock then BlockString.print literal.value else printString literal.value

/-- A description on lines of its own before what it describes. -/
def printDescription (description : Option StringLiteral) : Text :=
  match description with
  | none => []
  | some literal => literal.print ++ "\n"

/-- A reference to a type. -/
def TypeRef.print : TypeRef → Text
  | .named name required => name ++ if required then ['!'] else []
  | .list item required => "[" ++ item.print ++ "]" ++ if required then ['!'] else []

mutual

/-- A value. -/
def Value.print : Value → Text
  | .variableRef name => '$' :: name
  | .int digits => digits
  | .float digits => digits
  | .string literal => literal.print
  | .boolean true => "true"
  | .boolean false => "false"
  | .null => "null"
  | .enum name => name
  | .list items => "[" ++ Text.join ", " (Value.printItems items) ++ "]"
  | .object fields => r"{" ++ Text.join ", " (Value.printFields fields) ++ r"}"

/-- The items of a list. -/
def Value.printItems : List Value → List Text
  | [] => []
  | item :: items => item.print :: Value.printItems items

/-- The fields of an object. -/
def Value.printFields : List (Text × Value) → List Text
  | [] => []
  | (name, value) :: fields => (name ++ ": " ++ value.print) :: Value.printFields fields

end

/-- An argument. -/
def Argument.print (argument : Argument) : Text :=
  argument.name ++ ": " ++ argument.value.print

/-- The arguments of a directive, on one line. -/
def printArguments (arguments : List Argument) : Text :=
  Text.enclose "(" (Text.join ", " (arguments.map Argument.print)) ")"

/-- A directive put on something. -/
def Directive.print (directive : Directive) : Text :=
  "@" ++ directive.name ++ printArguments directive.arguments

/-- The directives put on something. -/
def printDirectives (directives : List Directive) : Text :=
  Text.join " " (directives.map Directive.print)

/-! ## Blocks -/

/-- Printed items between braces, each on lines of its own; nothing for no items. -/
def printBlock (items : List Text) : Text :=
  if items.isEmpty then []
  else ['{', '\n'] ++ (Text.join "\n" items).indent ++ ['\n', '}']

/-- A default value behind an equals sign. -/
def printDefault (value : Option Value) : Text :=
  match value with
  | none => []
  | some value => "= " ++ value.print

/-! ## Members -/

/-- An argument definition or a field of an input type. -/
def InputValue.print (input : InputValue) : Text :=
  printDescription input.description
    ++ Text.joinPresent " "
      [input.name ++ ": " ++ input.type.print, printDefault input.defaultValue,
        printDirectives input.directives]

/-- Argument definitions: in a row, or each on lines of its own as soon as one of them
    goes over a line end. -/
def printArgumentDefinitions (arguments : List InputValue) : Text :=
  let printed := arguments.map InputValue.print
  if printed.any Text.isMultiline then
    "(\n" ++ (Text.join "\n" printed).indent ++ "\n)"
  else Text.enclose "(" (Text.join ", " printed) ")"

/-- A field. -/
def Field.print (field : Field) : Text :=
  printDescription field.description ++ field.name ++ printArgumentDefinitions field.arguments
    ++ ": " ++ field.type.print ++ Text.enclose " " (printDirectives field.directives) []

/-- A value of an enum. -/
def EnumValue.print (value : EnumValue) : Text :=
  printDescription value.description
    ++ Text.joinPresent " " [value.name, printDirectives value.directives]

/-- A member of a type. -/
def Member.print : Member → Text
  | .field f => f.print
  | .input i => i.print
  | .value v => v.print

/-! ## Type definitions -/

/-- What stands before the members of a type, without its description. -/
def Block.header (block : Block) : List Text :=
  [block.kind.keyword, block.name,
    Text.enclose "implements " (Text.join " & " block.interfaces) [],
    printDirectives block.directives]

/-- A type with members, without its description; comments are left out. -/
def Block.printBare (block : Block) : Text :=
  Text.joinPresent " "
    (block.header ++ [printBlock ((Entry.nodes block.members).map Member.print)])

/-- A scalar type, without its description. -/
def ScalarType.printBare (scalar : ScalarType) : Text :=
  Text.joinPresent " " ["scalar", scalar.name, printDirectives scalar.directives]

/-- A union, without its description. -/
def UnionType.printBare (union : UnionType) : Text :=
  Text.joinPresent " "
    ["union", union.name, printDirectives union.directives,
      Text.enclose "= " (Text.join " | " union.types) []]

/-- A type definition, without its description. -/
def TypeDefinition.printBare : TypeDefinition → Text
  | .scalar s => s.printBare
  | .block b => b.printBare
  | .union u => u.printBare

/-! ## Schema declarations and directives -/

/-- The type that a schema offers for an operation. -/
def RootOperation.print (root : RootOperation) : Text :=
  root.operation.keyword ++ ": " ++ root.type

/-- A schema declaration, without its description. -/
def SchemaBlock.printBare (schema : SchemaBlock) : Text :=
  Text.joinPresent " "
    ["schema", printDirectives schema.directives,
      printBlock (schema.operations.map RootOperation.print)]

/-- A schema declaration. -/
def SchemaBlock.print (schema : SchemaBlock) : Text :=
  printDescription schema.description ++ schema.printBare

/-- The definition of a directive. -/
def DirectiveDefinition.print (directive : DirectiveDefinition) : Text :=
  printDescription directive.description ++ "directive @" ++ directive.name
    ++ printArgumentDefinitions directive.arguments
    ++ (if directive.repeatable then (" repeatable" : Text) else [])
    ++ " on " ++ Text.join " | " (directive.locations.map DirectiveLocation.keyword)

/-! ## Operations and fragments -/

/-- The name and arguments of a selected field: in a row, or each argument on lines of
    its own if the row is longer than eighty characters. -/
def printFieldCall (responseName : Option Text) (name : Text) (arguments : List Argument) : Text :=
  let label := (match responseName with
    | none => []
    | some responseName => responseName ++ ": ") ++ name
  let row := label ++ printArguments arguments
  if row.length > 80 then
    label ++ Text.enclose "(\n"
      (if arguments.isEmpty then [] else (Text.join "\n" (arguments.map Argument.print)).indent)
      "\n)"
  else row

mutual

/-- A selection. -/
def Selection.print : Selection → Text
  | .field responseName name arguments directives selections =>
      Text.joinPresent " "
        [printFieldCall responseName name arguments, printDirectives directives,
          printBlock (Selection.printAll selections)]
  | .spread name directives =>
      "..." ++ name ++ Text.enclose " " (printDirectives directives) []
  | .inline typeCondition directives selections =>
      Text.joinPresent " "
        ["...",
          match typeCondition with
          | none => []
          | some name => "on " ++ name,
          printDirectives directives, printBlock (Selection.printAll selections)]

/-- The selections of a set. -/
def Selection.printAll : List Selection → List Text
  | [] => []
  | selection :: rest => selection.print :: Selection.printAll rest

end

/-- The definition of a variable. -/
def VariableDefinition.print (definition : VariableDefinition) : Text :=
  printDescription definition.description ++ "$" ++ definition.name ++ ": "
    ++ definition.type.print
    ++ Text.enclose " " (printDefault definition.defaultValue) []
    ++ Text.enclose " " (printDirectives definition.directives) []

/-- The definitions of variables: in a row, or under each other, not indented, as soon
    as one of them goes over a line end. -/
def printVariables (variableDefinitions : List VariableDefinition) : Text :=
  let printed := variableDefinitions.map VariableDefinition.print
  if printed.any Text.isMultiline then "(\n" ++ Text.join "\n" printed ++ "\n)"
  else Text.enclose "(" (Text.join ", " printed) ")"

/-- An operation; a query with nothing but selections is printed without its word. -/
def Operation.print (operation : Operation) : Text :=
  let head := printDescription operation.description
    ++ Text.joinPresent " "
      [operation.kind.keyword,
        operation.name.getD [] ++ printVariables operation.variableDefinitions,
        printDirectives operation.directives]
  (if head = "query" then [] else head ++ [' '])
    ++ printBlock (Selection.printAll operation.selections)

/-- A fragment. -/
def Fragment.print (fragment : Fragment) : Text :=
  printDescription fragment.description ++ "fragment " ++ fragment.name ++ " on "
    ++ fragment.typeCondition ++ " " ++ Text.enclose [] (printDirectives fragment.directives) " "
    ++ printBlock (Selection.printAll fragment.selections)

/-! ## Definitions -/

/-- A definition; comments among its members are left out. -/
def Definition.print : Definition → Text
  | .schema s => s.print
  | .type t => printDescription t.description ++ t.printBare
  | .directive d => d.print
  | .extendSchema s => "extend " ++ s.printBare
  | .extendType t => "extend " ++ t.printBare
  | .operation o => o.print
  | .fragment f => f.print

/-! ## Comments in place -/

/-- A comment line. -/
def printComment (line : Text) : Text :=
  if line.isEmpty then "#" else "# " ++ line

/-- An entry among members. -/
def Entry.printMember : Entry Member → Text
  | .comment line => printComment line
  | .node member => member.print

/-- A type with members, its description and comments included: the header, then each
    entry indented by itself. -/
def Block.printWithComments (block : Block) : Text :=
  let header := (Definition.type (.block { block with members := [] })).print
  if block.members.isEmpty then header
  else header ++ [' ', '{', '\n']
    ++ Text.join "\n" (block.members.map fun entry => (Entry.printMember entry).indent)
    ++ ['\n', '}']

/-- A definition with the comments among its members. -/
def Definition.printWithComments : Definition → Text
  | .type (.block b) => b.printWithComments
  | definition => definition.print

/-- A top-level entry. -/
def Entry.print : Entry Definition → Text
  | .comment line => printComment line
  | .node definition => definition.printWithComments

/-- What stands between an entry and the next one: a comment keeps to the entry after it,
    and a blank line stands behind a definition. -/
def Entry.gap (entry : Entry Definition) : Text :=
  if entry.isComment then "\n" else ("\n\n" : Text)

/-- The entries behind `gap`. -/
def printEntriesAfter (gap : Text) : List (Entry Definition) → Text
  | [] => []
  | entry :: rest => gap ++ (entry.print ++ printEntriesAfter entry.gap rest)

/-- A sequence of entries as one document. -/
def printEntries (entries : List (Entry Definition)) : Text :=
  printEntriesAfter [] entries

/-- A document, comments in place. -/
def Document.print (document : Document) : Text :=
  printEntries document.entries

/-- The definitions of a document, comments left out, with blank lines between them. -/
def Document.printPlain (document : Document) : Text :=
  Text.join "\n\n" (document.definitions.map Definition.print)

end SchemaStitch

import SchemaStitch.Text

/-! # Documents

    A document is a sequence of definitions: types with members, other type
    definitions, directives, schema declarations, extensions of all these, operations
    and fragments.  Comment lines may stand among the definitions and among the members
    of a type; they are entries of their own, so a document keeps them in place.

    Where a node was read is not part of it: two nodes are equal iff they say the
    same. -/

namespace SchemaStitch

/-! ## Types and values -/

/-- A reference to a type: a name or a list of items, either of them optional or
    required. -/
inductive TypeRef
  | named (name : Text) (required : Bool)
  | list (item : TypeRef) (required : Bool)
  deriving DecidableEq, Repr

namespace TypeRef

/-- Whether a value of the type is required. -/
def required : TypeRef → Bool
  | .named _ required => required
  | .list _ required => required

/-- The name under all lists. -/
def name : TypeRef → Text
  | .named name _ => name
  | .list item _ => item.name

end TypeRef

/-- A string, with the spelling that it was written in. -/
structure StringLiteral where
  value : Text
  isBlock : Bool
  deriving DecidableEq, Repr

/-- A value as it may stand behind an argument or a default.  Numbers keep their
    digits as written. -/
inductive Value
  | variableRef (name : Text)
  | int (digits : Text)
  | float (digits : Text)
  | string (literal : StringLiteral)
  | boolean (value : Bool)
  | null
  | enum (name : Text)
  | list (items : List Value)
  | object (fields : List (Text × Value))
  deriving Repr

/-- An argument of a field or directive. -/
structure Argument where
  name : Text
  value : Value
  deriving Repr

/-- A directive put on something. -/
structure Directive where
  name : Text
  arguments : List Argument
  deriving Repr

/-! ## Members -/

/-- The definition of an argument, and of a field of an input type. -/
structure InputValue where
  description : Option StringLiteral
  name : Text
  type : TypeRef
  defaultValue : Option Value
  directives : List Directive
  deriving Repr

/-- The definition of a field. -/
structure Field where
  description : Option StringLiteral
  name : Text
  arguments : List InputValue
  type : TypeRef
  directives : List Directive
  deriving Repr

/-- The definition of a value of an enum. -/
structure EnumValue where
  description : Option StringLiteral
  name : Text
  directives : List Directive
  deriving Repr

/-- What stands between the braces of a type. -/
inductive Member
  | field (field : Field)
  | input (input : InputValue)
  | value (value : EnumValue)
  deriving Repr

namespace Member

/-- The name of a member. -/
def name : Member → Text
  | .field f => f.name
  | .input i => i.name
  | .value v => v.name

/-- The description of a member. -/
def description : Member → Option StringLiteral
  | .field f => f.description
  | .input i => i.description
  | .value v => v.description

/-- The directives on a member. -/
def directives : Member → List Directive
  | .field f => f.directives
  | .input i => i.directives
  | .value v => v.directives

/-- The member without its own description. -/
def withoutDescription : Member → Member
  | .field f => .field { f with description := none }
  | .input i => .input { i with description := none }
  | .value v => .value { v with description := none }

end Member

/-! ## Entries -/

/-- One of a sequence of nodes among which comment lines may stand. -/
inductive Entry (α : Type)
  | comment (line : Text)
  | node (value : α)
  deriving DecidableEq, Repr

namespace Entry

variable {α β : Type}

/-- The node of an entry that is no comment. -/
def node? : Entry α → Option α
  | .comment _ => none
  | .node value => some value

/-- Whether an entry is a comment. -/
def isComment : Entry α → Bool
  | .comment _ => true
  | .node _ => false

/-- The nodes among the entries. -/
def nodes (entries : List (Entry α)) : List α :=
  entries.filterMap node?

/-- The node changed by `f`; a comment stays. -/
def map (f : α → β) : Entry α → Entry β
  | .comment line => .comment line
  | .node value => .node (f value)

end Entry

/-! ## Type definitions -/

/-- The kinds of types that have members. -/
inductive BlockKind
  | object | interface | input | enum
  deriving DecidableEq, Repr

/-- The word that opens a definition of the kind. -/
def BlockKind.keyword : BlockKind → Text
  | .object => "type"
  | .interface => "interface"
  | .input => "input"
  | .enum => "enum"

/-- A type with members.  Only objects and interfaces have interfaces. -/
structure Block where
  kind : BlockKind
  description : Option StringLiteral
  name : Text
  interfaces : List Text
  directives : List Directive
  members : List (Entry Member)
  deriving Repr

/-- A scalar type. -/
structure ScalarType where
  description : Option StringLiteral
  name : Text
  directives : List Directive
  deriving Repr

/-- A union of types. -/
structure UnionType where
  description : Option StringLiteral
  name : Text
  directives : List Directive
  types : List Text
  deriving Repr

/-- The definition of a type. -/
inductive TypeDefinition
  | scalar (scalar : ScalarType)
  | block (block : Block)
  | union (union : UnionType)
  deriving Repr

namespace TypeDefinition

/-- The name of the type. -/
def name : TypeDefinition → Text
  | .scalar s => s.name
  | .block b => b.name
  | .union u => u.name

/-- The description of the type. -/
def description : TypeDefinition → Option StringLiteral
  | .scalar s => s.description
  | .block b => b.description
  | .union u => u.description

/-- The directives on the type. -/
def directives : TypeDefinition → List Directive
  | .scalar s => s.directives
  | .block b => b.directives
  | .union u => u.directives

/-- The definition without the description of the type. -/
def withoutDescription : TypeDefinition → TypeDefinition
  | .scalar s => .scalar { s with description := none }
  | .block b => .block { b with description := none }
  | .union u => .union { u with description := none }

end TypeDefinition

/-! ## Schema declarations and directives -/

/-- The operations that a schema may offer. -/
inductive OperationKind
  | query | mutation | subscription
  deriving DecidableEq, Repr

namespace OperationKind

/-- The word for an operation. -/
def keyword : OperationKind → Text
  | .query => "query"
  | .mutation => "mutation"
  | .subscription => "subscription"

/-- The operation that a word names. -/
def ofKeyword? (word : Text) : Option OperationKind :=
  if word = "query" then some .query
  else if word = "mutation" then some .mutation
  else if word = "subscription" then some .subscription
  else none

end OperationKind

/-- The type that a schema offers for an operation. -/
structure RootOperation where
  operation : OperationKind
  type : Text
  deriving DecidableEq, Repr

/-- A schema declaration, or an extension of one. -/
structure SchemaBlock where
  description : Option StringLiteral
  directives : List Directive
  operations : List RootOperation
  deriving Repr

/-- The places where a directive may stand. -/
inductive DirectiveLocation
  | query | mutation | subscription | field | fragmentDefinition | fragmentSpread
  | inlineFragment | variableDefinition
  | schema | scalar | object | fieldDefinition | argumentDefinition | interface | union
  | enum | enumValue | inputObject | inputFieldDefinition | directiveDefinition
  deriving DecidableEq, Repr

namespace DirectiveLocation

/-- All places. -/
def all : List DirectiveLocation :=
  [.query, .mutation, .subscription, .field, .fragmentDefinition, .fragmentSpread,
    .inlineFragment, .variableDefinition, .schema, .scalar, .object, .fieldDefinition,
    .argumentDefinition, .interface, .union, .enum, .enumValue, .inputObject,
    .inputFieldDefinition, .directiveDefinition]

/-- The name of a place in a directive definition. -/
def keyword : DirectiveLocation → Text
  | .query => "QUERY"
  | .mutation => "MUTATION"
  | .subscription => "SUBSCRIPTION"
  | .field => "FIELD"
  | .fragmentDefinition => "FRAGMENT_DEFINITION"
  | .fragmentSpread => "FRAGMENT_SPREAD"
  | .inlineFragment => "INLINE_FRAGMENT"
  | .variableDefinition => "VARIABLE_DEFINITION"
  | .schema => "SCHEMA"
  | .scalar => "SCALAR"
  | .object => "OBJECT"
  | .fieldDefinition => "FIELD_DEFINITION"
  | .argumentDefinition => "ARGUMENT_DEFINITION"
  | .interface => "INTERFACE"
  | .union => "UNION"
  | .enum => "ENUM"
  | .enumValue => "ENUM_VALUE"
  | .inputObject => "INPUT_OBJECT"
  | .inputFieldDefinition => "INPUT_FIELD_DEFINITION"
  | .directiveDefinition => "DIRECTIVE_DEFINITION"

/-- The place that a name in a directive definition means. -/
def ofKeyword? (word : Text) : Option DirectiveLocation :=
  all.find? fun location => location.keyword == word

/-- The place in words: its name in small letters, with blanks between the words. -/
def words (location : DirectiveLocation) : Text :=
  location.keyword.smallLetters.map fun c => if c = '_' then ' ' else c

end DirectiveLocation

/-- The definition of a directive. -/
structure DirectiveDefinition where
  description : Option StringLiteral
  name : Text
  arguments : List InputValue
  repeatable : Bool
  locations : List DirectiveLocation
  deriving Repr

/-! ## Operations and fragments -/

/-- The definition of a variable of an operation. -/
structure VariableDefinition where
  description : Option StringLiteral
  name : Text
  type : TypeRef
  defaultValue : Option Value
  directives : List Directive
  deriving Repr

/-- What an operation or fragment asks for.  A field without selections has an empty
    list of them. -/
inductive Selection
  | field (responseName : Option Text) (name : Text) (arguments : List Argument)
      (directives : List Directive) (selections : List Selection)
  | spread (name : Text) (directives : List Directive)
  | inline (typeCondition : Option Text) (directives : List Directive)
      (selections : List Selection)
  deriving Repr

/-- An operation. -/
structure Operation where
  description : Option StringLiteral
  kind : OperationKind
  name : Option Text
  variableDefinitions : List VariableDefinition
  directives : List Directive
  selections : List Selection
  deriving Repr

/-- A fragment. -/
structure Fragment where
  description : Option StringLiteral
  name : Text
  typeCondition : Text
  directives : List Directive
  selections : List Selection
  deriving Repr

/-! ## Definitions -/

/-- One of the definitions of a document. -/
inductive Definition
  | schema (schema : SchemaBlock)
  | type (type : TypeDefinition)
  | directive (directive : DirectiveDefinition)
  | extendSchema (schema : SchemaBlock)
  | extendType (type : TypeDefinition)
  | operation (operation : Operation)
  | fragment (fragment : Fragment)
  deriving Repr

/-- The kinds of top-level entries. -/
inductive DefinitionKind
  | schema | schemaExtension | objectType | interfaceType | inputObjectType | enumType
  | unionType | scalarType | directive | typeExtension | executable | comment
  deriving DecidableEq, Repr

/-- The word for a kind. -/
def DefinitionKind.label : DefinitionKind → Text
  | .schema => "schema"
  | .schemaExtension => "schema_extension"
  | .objectType => "object_type"
  | .interfaceType => "interface_type"
  | .inputObjectType => "input_object_type"
  | .enumType => "enum_type"
  | .unionType => "union_type"
  | .scalarType => "scalar_type"
  | .directive => "directive"
  | .typeExtension => "type_extension"
  | .executable => "executable"
  | .comment => "comment"

/-- The kind of a type with members. -/
def BlockKind.definitionKind : BlockKind → DefinitionKind
  | .object => .objectType
  | .interface => .interfaceType
  | .input => .inputObjectType
  | .enum => .enumType

namespace Definition

/-- The kind of a definition. -/
def kind : Definition → DefinitionKind
  | .schema _ => .schema
  | .type (.scalar _) => .scalarType
  | .type (.block b) => b.kind.definitionKind
  | .type (.union _) => .unionType
  | .directive _ => .directive
  | .extendSchema _ => .schemaExtension
  | .extendType _ => .typeExtension
  | .operation _ => .executable
  | .fragment _ => .executable

/-- The name of a definition; schema declarations, their extensions and anonymous
    operations have none. -/
def name? : Definition → Option Text
  | .schema _ => none
  | .type t => some t.name
  | .directive d => some d.name
  | .extendSchema _ => none
  | .extendType t => some t.name
  | .operation o => o.name
  | .fragment f => some f.name

/-- The description of a definition; extensions have none. -/
def description : Definition → Option StringLiteral
  | .schema s => s.description
  | .type t => t.description
  | .directive d => d.description
  | .extendSchema _ => none
  | .extendType _ => none
  | .operation o => o.description
  | .fragment f => f.description

/-- The definition without its own description. -/
def withoutDescription : Definition → Definition
  | .schema s => .schema { s with description := none }
  | .type t => .type t.withoutDescription
  | .directive d => .directive { d with description := none }
  | .extendSchema s => .extendSchema s
  | .extendType t => .extendType t
  | .operation o => .operation { o with description := none }
  | .fragment f => .fragment { f with description := none }

/-- The type with members that a definition defines.  Extensions define none. -/
def block? : Definition → Option Block
  | .type (.block b) => some b
  | _ => none

/-- The definition with the type with members that it defines changed by `f`. -/
def mapBlock (f : Block → Block) : Definition → Definition
  | .type (.block b) => .type (.block (f b))
  | definition => definition

/-- The definition with the members that it defines changed by `f`. -/
def mapMembers (f : List (Entry Member) → List (Entry Member)) : Definition → Definition :=
  mapBlock fun b => { b with members := f b.members }

/-- The members of a definition whose kind has them. -/
def members? (definition : Definition) : Option (List (Entry Member)) :=
  definition.block?.map Block.members

/-- The object type that a definition defines. -/
def object? : Definition → Option Block
  | .type (.block b) => if b.kind = .object then some b else none
  | _ => none

/-- Whether a definition is a schema declaration. -/
def isSchema : Definition → Bool
  | .schema _ => true
  | _ => false

end Definition

/-- The kind of a top-level entry. -/
def Entry.kind : Entry Definition → DefinitionKind
  | .comment _ => .comment
  | .node definition => definition.kind

/-- A sequence of definitions and comments, and the texts that its nodes were read
    from, in the order of reading: messages about a node show an excerpt of them. -/
structure Document where
  entries : List (Entry Definition)
  sources : List Text
  deriving Repr

namespace Document

/-- The definitions of a document without its comments. -/
def definitions (document : Document) : List Definition :=
  Entry.nodes document.entries

end Document

end SchemaStitch

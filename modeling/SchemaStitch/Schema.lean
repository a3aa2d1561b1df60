import SchemaStitch.Document
import SchemaStitch.Keyed

/-! # Schemas

    A schema is what a document comes to once definitions and their extensions are put
    together and every name stands for something: the types that it offers, the types of
    its root operations, and the names of its directives.

    Some names stand for something in every schema: the standard scalars, the types that
    describe a schema to its clients, and the directives that need no definition. -/

namespace SchemaStitch

/-! ## What a schema offers -/

/-- A field of an object or interface as a schema offers it. -/
structure SchemaField where
  name : Text
  type : TypeRef
  arguments : List (Text × TypeRef)
  deriving DecidableEq, Repr

/-- A type as a schema offers it.  Lists are in the order of definition, with what
    extensions add behind it. -/
inductive SchemaType
  | scalar
  | object (interfaces : List Text) (fields : List SchemaField)
  | interface (interfaces : List Text) (fields : List SchemaField)
  | union (types : List Text)
  | enum (values : List Text)
  | input (fields : List (Text × TypeRef))
  deriving DecidableEq, Repr

/-- A schema.  The types that every schema has are not listed. -/
structure Schema where
  query : Option Text
  mutation : Option Text
  subscription : Option Text
  types : Keyed SchemaType
  directives : List Text
  deriving DecidableEq, Repr

/-- The type of a name. -/
def Schema.type? (schema : Schema) (name : Text) : Option SchemaType :=
  Keyed.get? name schema.types

/-! ## Kinds of types -/

/-- The kinds of types. -/
inductive TypeKind
  | scalar | object | interface | union | enum | input
  deriving DecidableEq, Repr

namespace TypeKind

/-- A kind in words. -/
def words : TypeKind → Text
  | .scalar => "scalar"
  | .object => "object"
  | .interface => "interface"
  | .union => "union"
  | .enum => "enum"
  | .input => "input object"

/-- Kinds that a value sent to the schema may have. -/
def isInput : TypeKind → Bool
  | .scalar => true
  | .enum => true
  | .input => true
  | _ => false

/-- Kinds that a value received from the schema may have. -/
def isOutput : TypeKind → Bool
  | .input => false
  | _ => true

end TypeKind

/-- The kind of types with members as a kind of types. -/
def BlockKind.typeKind : BlockKind → TypeKind
  | .object => .object
  | .interface => .interface
  | .input => .input
  | .enum => .enum

/-- The kind of the type that a definition defines. -/
def TypeDefinition.kind : TypeDefinition → TypeKind
  | .scalar _ => .scalar
  | .block b => b.kind.typeKind
  | .union _ => .union

/-! ## What every schema knows -/

namespace Builtin

/-- The standard scalars. -/
def scalars : List Text :=
  ["Int", "Float", "String", "Boolean", "ID"]

/-- The types that describe a schema, with their kinds. -/
def introspection : Keyed TypeKind :=
  [("__Schema", .object), ("__Directive", .object), ("__DirectiveLocation", .enum),
    ("__Type", .object), ("__Field", .object), ("__InputValue", .object),
    ("__EnumValue", .object), ("__TypeKind", .enum)]

/-- The types that every schema has, with their kinds. -/
def types : Keyed TypeKind :=
  scalars.map (·, .scalar) ++ introspection

/-- The names of the types that every schema has. -/
def typeNames : List Text :=
  Keyed.names types

/-- The kind of a type that every schema has. -/
def kind? (name : Text) : Option TypeKind :=
  Keyed.get? name types

/-- The values of the enums that every schema has. -/
def enumValues (name : Text) : List Text :=
  if name = "__TypeKind" then
    ["SCALAR", "OBJECT", "INTERFACE", "UNION", "ENUM", "INPUT_OBJECT", "LIST", "NON_NULL"]
  else if name = "__DirectiveLocation" then
    DirectiveLocation.all.map DirectiveLocation.keyword
  else []

/-- An argument of a directive. -/
def argument (name : Text) (type : Text) (required : Bool) (defaultValue : Option Value) :
    InputValue :=
  { description := none, name, type := .named type required, defaultValue, directives := [] }

/-- A directive that may stand once in a place. -/
def directive (name : Text) (arguments : List InputValue) (locations : List DirectiveLocation) :
    DirectiveDefinition :=
  { description := none, name, arguments, repeatable := false, locations }

/-- The directives that every schema has. -/
def directives : List DirectiveDefinition :=
  [directive "include" [argument "if" "Boolean" true none]
      [.field, .fragmentSpread, .inlineFragment],
    directive "skip" [argument "if" "Boolean" true none]
      [.field, .fragmentSpread, .inlineFragment],
    directive "deprecated"
      [argument "reason" "String" false (some (.string ⟨"No longer supported", false⟩))]
      [.fieldDefinition, .argumentDefinition, .inputFieldDefinition, .enumValue,
        .directiveDefinition],
    directive "specifiedBy" [argument "url" "String" true none] [.scalar],
    directive "oneOf" [] [.inputObject]]

end Builtin

end SchemaStitch

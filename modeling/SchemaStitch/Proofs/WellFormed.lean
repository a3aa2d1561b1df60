import SchemaStitch.Document.Parser
import SchemaStitch.Proofs.Lexing
import SchemaStitch.Proofs.Tokens

/-! # Nodes that can be written and read

    A node is well formed if its names are names, its numbers are numerals, the text of
    its block strings is flush, and it is not nested too deeply.  Some nodes must not be
    empty: a set of selections, the operations of a schema declaration, the places of a
    directive, and an extension.

    Well-formed nodes are those that can be read.  Comments are no part of what is read;
    where they stand, each of them is one line in front of something
    (`Entry.Attached`). -/

namespace SchemaStitch

open SchemaStitch.Parser

/-! ## Types and values -/

/-- How many lists are around the name of a type. -/
def TypeRef.depth : TypeRef → Nat
  | .named _ _ => 0
  | .list item _ => item.depth + 1

/-- A reference to a type that can be read. -/
structure TypeRef.WellFormed (type : TypeRef) : Prop where
  name : isName type.name = true
  depth : type.depth ≤ maximalDepth

/-- A string that can be read. -/
def StringLiteral.WellFormed (literal : StringLiteral) : Prop :=
  literal.token.IsLegal

/-- A value that opens at most `depth` lists and objects in one another, and that holds no
    variables if it is constant. -/
inductive Value.WellFormed (constant : Bool) : Nat → Value → Prop
  | variableRef {depth : Nat} {name : Text} (hc : constant = false) (hn : isName name = true) :
      WellFormed constant depth (.variableRef name)
  | int {depth : Nat} {digits : Text} (h : (Token.int digits).IsLegal) :
      WellFormed constant depth (.int digits)
  | float {depth : Nat} {digits : Text} (h : (Token.float digits).IsLegal) :
      WellFormed constant depth (.float digits)
  | string {depth : Nat} {literal : StringLiteral} (h : literal.WellFormed) :
      WellFormed constant depth (.string literal)
  | boolean {depth : Nat} (value : Bool) : WellFormed constant depth (.boolean value)
  | null {depth : Nat} : WellFormed constant depth .null
  | enum {depth : Nat} {name : Text} (hn : isName name = true)
      (hr : isReservedValue name = false) : WellFormed constant depth (.enum name)
  | list {depth : Nat} {items : List Value} (h : ∀ item ∈ items, WellFormed constant depth item) :
      WellFormed constant (depth + 1) (.list items)
  | object {depth : Nat} {fields : List (Text × Value)}
      (hn : ∀ field ∈ fields, isName field.1 = true)
      (h : ∀ field ∈ fields, WellFormed constant depth field.2) :
      WellFormed constant (depth + 1) (.object fields)

/-- An argument that can be read. -/
structure Argument.WellFormed (constant : Bool) (depth : Nat) (argument : Argument) : Prop where
  name : isName argument.name = true
  value : argument.value.WellFormed constant depth

/-- A directive that can be read. -/
structure Directive.WellFormed (constant : Bool) (depth : Nat) (directive : Directive) :
    Prop where
  name : isName directive.name = true
  arguments : ∀ argument ∈ directive.arguments, argument.WellFormed constant depth

/-! ## Members -/

/-- An argument definition or a field of an input type that can be read. -/
structure InputValue.WellFormed (input : InputValue) : Prop where
  description : ∀ literal ∈ input.description, literal.WellFormed
  name : isName input.name = true
  type : input.type.WellFormed
  defaultValue : ∀ value ∈ input.defaultValue, value.WellFormed true maximalDepth
  directives : ∀ directive ∈ input.directives, directive.WellFormed true maximalDepth

/-- A field that can be read. -/
structure Field.WellFormed (field : Field) : Prop where
  description : ∀ literal ∈ field.description, literal.WellFormed
  name : isName field.name = true
  arguments : ∀ argument ∈ field.arguments, argument.WellFormed
  type : field.type.WellFormed
  directives : ∀ directive ∈ field.directives, directive.WellFormed true maximalDepth

/-- A value of an enum that can be read. -/
structure EnumValue.WellFormed (value : EnumValue) : Prop where
  description : ∀ literal ∈ value.description, literal.WellFormed
  name : isName value.name = true
  notReserved : isReservedValue value.name = false
  directives : ∀ directive ∈ value.directives, directive.WellFormed true maximalDepth

/-- A member that can be read between the braces of a type of a kind. -/
inductive Member.WellFormed : BlockKind → Member → Prop
  | object {field : Field} (h : field.WellFormed) : WellFormed .object (.field field)
  | interface {field : Field} (h : field.WellFormed) : WellFormed .interface (.field field)
  | input {input : InputValue} (h : input.WellFormed) : WellFormed .input (.input input)
  | value {value : EnumValue} (h : value.WellFormed) : WellFormed .enum (.value value)

/-! ## Comments among entries -/

/-- Every comment is one line and stands in front of something. -/
inductive Entry.Attached {α : Type} : List (Entry α) → Prop
  | nil : Attached []
  | node (value : α) {rest : List (Entry α)} (h : Attached rest) : Attached (.node value :: rest)
  | comment {line : Text} {rest : List (Entry α)} (hl : ∀ c ∈ line, Text.isNewline c = false)
      (hne : rest ≠ []) (h : Attached rest) : Attached (.comment line :: rest)

namespace Entry

variable {α : Type}

@[simp] theorem nodes_nil : nodes ([] : List (Entry α)) = [] := rfl

@[simp] theorem nodes_node (value : α) (rest : List (Entry α)) :
    nodes (.node value :: rest) = value :: nodes rest := rfl

@[simp] theorem nodes_comment (line : Text) (rest : List (Entry α)) :
    nodes (.comment line :: rest) = nodes rest := rfl

/-- The nodes of entries behind one another are behind one another. -/
@[simp] theorem nodes_append (first second : List (Entry α)) :
    nodes (first ++ second) = nodes first ++ nodes second :=
  List.filterMap_append

/-- Nodes alone are all nodes. -/
@[simp] theorem nodes_map_node (values : List α) : nodes (values.map .node) = values := by
  induction values with
  | nil => rfl
  | cons value rest ih => rw [List.map_cons, nodes_node, ih]

/-- Comments alone are no nodes. -/
@[simp] theorem nodes_map_comment (lines : List Text) :
    nodes (lines.map .comment : List (Entry α)) = [] := by
  induction lines with
  | nil => rfl
  | cons line rest ih => rw [List.map_cons, nodes_comment, ih]

/-- Where there are no comments, none lacks something behind it. -/
theorem attached_map_node (values : List α) : Attached (values.map .node) := by
  induction values with
  | nil => exact .nil
  | cons value rest ih => exact .node value ih

/-- Attached entries behind one another are attached. -/
theorem Attached.append {first second : List (Entry α)} (h : Attached first)
    (hs : Attached second) : Attached (first ++ second) := by
  induction h with
  | nil => exact hs
  | node value _ ih => exact .node value ih
  | comment hl hne _ ih =>
      exact .comment hl (fun heq => hne (List.append_eq_nil_iff.mp heq).1) ih

/-- Attached entries hold a node as soon as they hold anything. -/
theorem Attached.nodes_ne_nil {entries : List (Entry α)} (h : Attached entries)
    (hne : entries ≠ []) : nodes entries ≠ [] := by
  induction h with
  | nil => exact absurd rfl hne
  | node value _ _ => exact List.cons_ne_nil _ _
  | comment _ hrest _ ih => exact ih hrest

end Entry

/-! ## Definitions -/

/-- A type with members that can be read, but for the comments in it. -/
structure Block.WellFormed (block : Block) : Prop where
  description : ∀ literal ∈ block.description, literal.WellFormed
  name : isName block.name = true
  interfaces : ∀ name ∈ block.interfaces, isName name = true
  implements : block.interfaces ≠ [] → mayImplement block.kind = true
  directives : ∀ directive ∈ block.directives, directive.WellFormed true maximalDepth
  members : ∀ member ∈ Entry.nodes block.members, member.WellFormed block.kind

/-- A scalar type that can be read. -/
structure ScalarType.WellFormed (scalar : ScalarType) : Prop where
  description : ∀ literal ∈ scalar.description, literal.WellFormed
  name : isName scalar.name = true
  directives : ∀ directive ∈ scalar.directives, directive.WellFormed true maximalDepth

/-- A union that can be read. -/
structure UnionType.WellFormed (union : UnionType) : Prop where
  description : ∀ literal ∈ union.description, literal.WellFormed
  name : isName union.name = true
  directives : ∀ directive ∈ union.directives, directive.WellFormed true maximalDepth
  types : ∀ name ∈ union.types, isName name = true

/-- The definition of a type that can be read. -/
def TypeDefinition.WellFormed : TypeDefinition → Prop
  | .scalar s => s.WellFormed
  | .block b => b.WellFormed
  | .union u => u.WellFormed

/-- The entries between the braces of a type. -/
def TypeDefinition.members : TypeDefinition → List (Entry Member)
  | .block b => b.members
  | _ => []

/-- Whether a type could have members and has none. -/
def TypeDefinition.isOpen : TypeDefinition → Bool
  | .block b => (Entry.nodes b.members).isEmpty
  | _ => false

/-- A schema declaration or extension that can be read, but for being empty. -/
structure SchemaBlock.WellFormed (schema : SchemaBlock) : Prop where
  description : ∀ literal ∈ schema.description, literal.WellFormed
  directives : ∀ directive ∈ schema.directives, directive.WellFormed true maximalDepth
  operations : ∀ root ∈ schema.operations, isName root.type = true

/-- The definition of a directive that can be read. -/
structure DirectiveDefinition.WellFormed (directive : DirectiveDefinition) : Prop where
  description : ∀ literal ∈ directive.description, literal.WellFormed
  name : isName directive.name = true
  arguments : ∀ argument ∈ directive.arguments, argument.WellFormed
  locations : directive.locations ≠ []

/-- A selection in a set inside of which at most `depth` sets, lists and objects are
    opened in one another. -/
inductive Selection.WellFormed : Nat → Selection → Prop
  | field {depth : Nat} {responseName : Option Text} {name : Text} {arguments : List Argument}
      {directives : List Directive} {selections : List Selection}
      (hr : ∀ label ∈ responseName, isName label = true) (hn : isName name = true)
      (ha : ∀ argument ∈ arguments, argument.WellFormed false depth)
      (hd : ∀ directive ∈ directives, directive.WellFormed false depth)
      (hopen : selections ≠ [] → 0 < depth)
      (hs : ∀ selection ∈ selections, WellFormed (depth - 1) selection) :
      WellFormed depth (.field responseName name arguments directives selections)
  | spread {depth : Nat} {name : Text} {directives : List Directive} (hn : isName name = true)
      (hon : name ≠ "on") (hd : ∀ directive ∈ directives, directive.WellFormed false depth) :
      WellFormed depth (.spread name directives)
  | inline {depth : Nat} {typeCondition : Option Text} {directives : List Directive}
      {selections : List Selection} (ht : ∀ name ∈ typeCondition, isName name = true)
      (hd : ∀ directive ∈ directives, directive.WellFormed false depth) (hopen : 0 < depth)
      (hne : selections ≠ []) (hs : ∀ selection ∈ selections, WellFormed (depth - 1) selection) :
      WellFormed depth (.inline typeCondition directives selections)

/-- A set of selections that opens at most `depth` sets, lists and objects in one another,
    itself included. -/
structure Selection.SetWellFormed (depth : Nat) (selections : List Selection) : Prop where
  opened : 0 < depth
  nonempty : selections ≠ []
  selections : ∀ selection ∈ selections, selection.WellFormed (depth - 1)

/-- The definition of a variable that can be read. -/
structure VariableDefinition.WellFormed (definition : VariableDefinition) : Prop where
  description : ∀ literal ∈ definition.description, literal.WellFormed
  name : isName definition.name = true
  type : definition.type.WellFormed
  defaultValue : ∀ value ∈ definition.defaultValue, value.WellFormed true maximalDepth
  directives : ∀ directive ∈ definition.directives, directive.WellFormed true maximalDepth

/-- An operation that can be read. -/
structure Operation.WellFormed (operation : Operation) : Prop where
  description : ∀ literal ∈ operation.description, literal.WellFormed
  name : ∀ name ∈ operation.name, isName name = true
  variableDefinitions : ∀ definition ∈ operation.variableDefinitions, definition.WellFormed
  directives : ∀ directive ∈ operation.directives, directive.WellFormed false maximalDepth
  selections : Selection.SetWellFormed maximalDepth operation.selections

/-- A fragment that can be read. -/
structure Fragment.WellFormed (fragment : Fragment) : Prop where
  description : ∀ literal ∈ fragment.description, literal.WellFormed
  name : isName fragment.name = true
  nameNotOn : fragment.name ≠ "on"
  typeCondition : isName fragment.typeCondition = true
  directives : ∀ directive ∈ fragment.directives, directive.WellFormed false maximalDepth
  selections : Selection.SetWellFormed maximalDepth fragment.selections

namespace Definition

/-- A definition that can be read, but for the comments in it. -/
def WellFormed : Definition → Prop
  | .schema s => s.WellFormed ∧ s.operations ≠ []
  | .type t => t.WellFormed
  | .directive d => d.WellFormed
  | .extendSchema s =>
      s.WellFormed ∧ s.description = none ∧ (s.directives ≠ [] ∨ s.operations ≠ [])
  | .extendType t => t.WellFormed ∧ t.description = none ∧ addsToType t = true
  | .operation o => o.WellFormed
  | .fragment f => f.WellFormed

/-- The entries between the braces of a type that a definition defines or extends. -/
def body : Definition → List (Entry Member)
  | .type t => t.members
  | .extendType t => t.members
  | _ => []

/-- No comment stands in a definition. -/
def Uncommented (definition : Definition) : Prop :=
  definition.body = (Entry.nodes definition.body).map .node

/-- Whether a definition has no braces but could have some: behind its last token an
    opening brace would go on with it. -/
def isOpen : Definition → Bool
  | .type t => t.isOpen
  | .extendSchema s => s.operations.isEmpty
  | .extendType t => t.isOpen
  | _ => false

/-- Whether a definition is a query with nothing but selections, so that it starts with an
    opening brace. -/
def isShorthand : Definition → Bool
  | .operation o => o.isShorthand
  | _ => false

/-- The definition as it is read back from its printed form: without comments, and without
    its own description and those of its members. -/
def bare (definition : Definition) : Definition :=
  (definition.mapMembers fun members =>
    (Entry.nodes members).map fun member => .node member.withoutDescription).withoutDescription

end Definition

end SchemaStitch

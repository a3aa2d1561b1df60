import SchemaStitch.Document
import SchemaStitch.Token

/-! # The tokens of a document

    Every node has one sequence of tokens: those that its printed form consists of.  It
    leaves out what the language leaves open, such as a bar before the first type of a
    union, so it is the shortest way to write the node. -/

namespace SchemaStitch

/-! ## Sequences -/

/-- Sequences with a token between neighbours. -/
def separateTokens (separator : Token) (parts : List (List Token)) : List Token :=
  [separator].intercalate parts

/-- Sequences between two punctuators; nothing for no sequences. -/
def encloseTokens (opening closing : Punctuator) (parts : List (List Token)) : List Token :=
  if parts.isEmpty then []
  else .punctuator opening :: parts.flatten ++ [.punctuator closing]

/-- The token of a word. -/
def wordToken (word : Text) : Token :=
  .name word

/-! ## Types and values -/

/-- The token of a string. -/
def StringLiteral.token (literal : StringLiteral) : Token :=
  if literal.isBlock then .blockString literal.value else .string literal.value

/-- The token of a description, if there is one. -/
def descriptionTokens (description : Option StringLiteral) : List Token :=
  description.toList.map StringLiteral.token

/-- The token that makes a type required. -/
def requiredTokens (required : Bool) : List Token :=
  if required then [.punctuator .bang] else []

/-- The tokens of a reference to a type. -/
def TypeRef.tokens : TypeRef → List Token
  | .named name required => .name name :: requiredTokens required
  | .list item required =>
      .punctuator .openBracket :: item.tokens
        ++ .punctuator .closeBracket :: requiredTokens required

mutual

/-- The tokens of a value. -/
def Value.tokens : Value → List Token
  | .variableRef name => [.punctuator .dollar, .name name]
  | .int digits => [.int digits]
  | .float digits => [.float digits]
  | .string literal => [literal.token]
  | .boolean true => [wordToken "true"]
  | .boolean false => [wordToken "false"]
  | .null => [wordToken "null"]
  | .enum name => [.name name]
  | .list items =>
      .punctuator .openBracket :: Value.itemTokens items ++ [.punctuator .closeBracket]
  | .object fields =>
      .punctuator .openBrace :: Value.fieldTokens fields ++ [.punctuator .closeBrace]

/-- The tokens of the items of a list. -/
def Value.itemTokens : List Value → List Token
  | [] => []
  | item :: rest => item.tokens ++ Value.itemTokens rest

/-- The tokens of the fields of an object. -/
def Value.fieldTokens : List (Text × Value) → List Token
  | [] => []
  | (name, value) :: rest =>
      .name name :: .punctuator .colon :: value.tokens ++ Value.fieldTokens rest

end

/-- The tokens of an argument. -/
def Argument.tokens (argument : Argument) : List Token :=
  .name argument.name :: .punctuator .colon :: argument.value.tokens

/-- The tokens of arguments in parentheses. -/
def argumentTokens (arguments : List Argument) : List Token :=
  encloseTokens .openParen .closeParen (arguments.map Argument.tokens)

/-- The tokens of a directive. -/
def Directive.tokens (directive : Directive) : List Token :=
  .punctuator .atSign :: .name directive.name :: argumentTokens directive.arguments

/-- The tokens of directives. -/
def directiveTokens (directives : List Directive) : List Token :=
  directives.flatMap Directive.tokens

/-- The tokens of a default value behind an equals sign. -/
def defaultTokens (value : Option Value) : List Token :=
  match value with
  | none => []
  | some value => .punctuator .equals :: value.tokens

/-! ## Members -/

/-- The tokens of an argument definition before its directives. -/
def InputValue.leadingTokens (input : InputValue) : List Token :=
  descriptionTokens input.description
    ++ .name input.name :: .punctuator .colon :: input.type.tokens
    ++ defaultTokens input.defaultValue

/-- The tokens of an argument definition or a field of an input type. -/
def InputValue.tokens (input : InputValue) : List Token :=
  input.leadingTokens ++ directiveTokens input.directives

/-- The tokens of argument definitions in parentheses. -/
def argumentDefinitionTokens (arguments : List InputValue) : List Token :=
  encloseTokens .openParen .closeParen (arguments.map InputValue.tokens)

/-- The tokens of a field before its directives. -/
def Field.leadingTokens (field : Field) : List Token :=
  descriptionTokens field.description
    ++ .name field.name :: argumentDefinitionTokens field.arguments
    ++ .punctuator .colon :: field.type.tokens

/-- The tokens of a field. -/
def Field.tokens (field : Field) : List Token :=
  field.leadingTokens ++ directiveTokens field.directives

/-- The tokens of a value of an enum before its directives. -/
def EnumValue.leadingTokens (value : EnumValue) : List Token :=
  descriptionTokens value.description ++ [.name value.name]

/-- The tokens of a value of an enum. -/
def EnumValue.tokens (value : EnumValue) : List Token :=
  value.leadingTokens ++ directiveTokens value.directives

/-- The tokens of a member. -/
def Member.tokens : Member → List Token
  | .field f => f.tokens
  | .input i => i.tokens
  | .value v => v.tokens

/-! ## Type definitions -/

/-- The tokens that name the interfaces of a type. -/
def interfaceTokens (interfaces : List Text) : List Token :=
  if interfaces.isEmpty then []
  else wordToken "implements"
    :: separateTokens (.punctuator .ampersand) (interfaces.map fun name => [.name name])

/-- The tokens of a type with members before the members, without its description. -/
def Block.headerTokens (block : Block) : List Token :=
  .name block.kind.keyword :: .name block.name :: interfaceTokens block.interfaces
    ++ directiveTokens block.directives

/-- The tokens of a type definition without its description. -/
def TypeDefinition.bareTokens : TypeDefinition → List Token
  | .scalar s => wordToken "scalar" :: .name s.name :: directiveTokens s.directives
  | .block b =>
      b.headerTokens
        ++ encloseTokens .openBrace .closeBrace ((Entry.nodes b.members).map Member.tokens)
  | .union u =>
      wordToken "union" :: .name u.name :: directiveTokens u.directives
        ++ if u.types.isEmpty then []
          else .punctuator .equals
            :: separateTokens (.punctuator .bar) (u.types.map fun name => [.name name])

/-! ## Schema declarations and directives -/

/-- The tokens of a root operation. -/
def RootOperation.tokens (root : RootOperation) : List Token :=
  [.name root.operation.keyword, .punctuator .colon, .name root.type]

/-- The tokens of a schema declaration without its description. -/
def SchemaBlock.bareTokens (schema : SchemaBlock) : List Token :=
  wordToken "schema" :: directiveTokens schema.directives
    ++ encloseTokens .openBrace .closeBrace (schema.operations.map RootOperation.tokens)

/-- The tokens of the definition of a directive without its description. -/
def DirectiveDefinition.bareTokens (directive : DirectiveDefinition) : List Token :=
  wordToken "directive" :: .punctuator .atSign :: .name directive.name
    :: argumentDefinitionTokens directive.arguments
    ++ (if directive.repeatable then [wordToken "repeatable"] else [])
    ++ wordToken "on"
    :: separateTokens (.punctuator .bar)
      (directive.locations.map fun location => [.name location.keyword])

/-! ## Operations and fragments -/

mutual

/-- The tokens of a selection. -/
def Selection.tokens : Selection → List Token
  | .field responseName name arguments directives selections =>
      (match responseName with
        | none => [.name name]
        | some responseName => [.name responseName, .punctuator .colon, .name name])
        ++ argumentTokens arguments ++ directiveTokens directives
        ++ encloseTokens .openBrace .closeBrace (Selection.tokensOfAll selections)
  | .spread name directives =>
      .punctuator .spread :: .name name :: directiveTokens directives
  | .inline typeCondition directives selections =>
      .punctuator .spread ::
        (match typeCondition with
          | none => []
          | some name => [wordToken "on", .name name])
        ++ directiveTokens directives
        ++ encloseTokens .openBrace .closeBrace (Selection.tokensOfAll selections)

/-- The tokens of each of several selections. -/
def Selection.tokensOfAll : List Selection → List (List Token)
  | [] => []
  | selection :: rest => selection.tokens :: Selection.tokensOfAll rest

end

/-- The tokens of a set of selections. -/
def selectionSetTokens (selections : List Selection) : List Token :=
  encloseTokens .openBrace .closeBrace (Selection.tokensOfAll selections)

/-- The tokens of the definition of a variable. -/
def VariableDefinition.tokens (definition : VariableDefinition) : List Token :=
  descriptionTokens definition.description
    ++ .punctuator .dollar :: .name definition.name :: .punctuator .colon
    :: definition.type.tokens ++ defaultTokens definition.defaultValue
    ++ directiveTokens definition.directives

/-- The tokens of an operation; a query with nothing but selections needs no word. -/
def Operation.tokens (operation : Operation) : List Token :=
  let head := operation.name.toList.map Token.name
    ++ encloseTokens .openParen .closeParen
      (operation.variableDefinitions.map VariableDefinition.tokens)
    ++ directiveTokens operation.directives
  let words := if operation.kind = .query && operation.description.isNone && head.isEmpty then []
    else [.name operation.kind.keyword]
  descriptionTokens operation.description ++ words ++ head
    ++ selectionSetTokens operation.selections

/-- The tokens of a fragment. -/
def Fragment.tokens (fragment : Fragment) : List Token :=
  descriptionTokens fragment.description
    ++ wordToken "fragment" :: .name fragment.name :: wordToken "on"
    :: .name fragment.typeCondition :: directiveTokens fragment.directives
    ++ selectionSetTokens fragment.selections

/-! ## Definitions -/

/-- The tokens of a definition. -/
def Definition.tokens : Definition → List Token
  | .schema s => descriptionTokens s.description ++ s.bareTokens
  | .type t => descriptionTokens t.description ++ t.bareTokens
  | .directive d => descriptionTokens d.description ++ d.bareTokens
  | .extendSchema s => wordToken "extend" :: s.bareTokens
  | .extendType t => wordToken "extend" :: t.bareTokens
  | .operation o => o.tokens
  | .fragment f => f.tokens

end SchemaStitch

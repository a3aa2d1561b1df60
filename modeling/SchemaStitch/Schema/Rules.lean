import SchemaStitch.Document.Printer
import SchemaStitch.Schema
import SchemaStitch.Suggestion

/-! # Rules for schema documents

    Before a schema is built, its document is walked through once, and every rule that it
    breaks is noted where it is broken.  At each node the rules act in a fixed order, then
    the parts of the node are looked at, then what the node leaves out. -/

namespace SchemaStitch

/-- A broken rule. -/
inductive RuleFault
  | secondSchema
  | secondRoot (operation : OperationKind)
  | secondType (name : Text)
  | secondEnumValue (type value : Text)
  | secondField (type field : Text)
  | secondArgument (owner argument : Text)
  | secondDirective (name : Text)
  | unknownType (name : Text) (known : List Text)
  | unknownDirective (name : Text)
  | misplacedDirective (name : Text) (location : DirectiveLocation)
  | repeatedDirective (name : Text)
  | extendsOtherKind (name : Text) (kind : TypeKind)
  | extendsUndefined (name : Text) (known : List Text)
  | unknownArgument (name directive : Text) (known : List Text)
  | repeatedArgument (name : Text)
  | repeatedInputField (name : Text)
  | missingArgument (directive argument : Text) (type : TypeRef)
  deriving DecidableEq, Repr

/-- The message of a broken rule.  Sorting the suggestions may meet a number that is too
    long. -/
def RuleFault.message : RuleFault → Except NumeralTooLong Text
  | .secondSchema => .ok "Must provide only one schema definition."
  | .secondRoot operation =>
      .ok ("There can be only one " ++ operation.keyword ++ " type in schema.")
  | .secondType name => .ok ("There can be only one type named '" ++ name ++ "'.")
  | .secondEnumValue type value =>
      .ok ("Enum value '" ++ type ++ "." ++ value ++ "' can only be defined once.")
  | .secondField type field =>
      .ok ("Field '" ++ type ++ "." ++ field ++ "' can only be defined once.")
  | .secondArgument owner argument =>
      .ok ("Argument '" ++ owner ++ "(" ++ argument ++ ":)' can only be defined once.")
  | .secondDirective name => .ok ("There can be only one directive named '@" ++ name ++ "'.")
  | .unknownType name known => do
      pure ("Unknown type '" ++ name ++ "'." ++ didYouMean (← suggestions name known))
  | .unknownDirective name => .ok ("Unknown directive '@" ++ name ++ "'.")
  | .misplacedDirective name location =>
      .ok ("Directive '@" ++ name ++ "' may not be used on " ++ location.words ++ ".")
  | .repeatedDirective name =>
      .ok ("The directive '@" ++ name ++ "' can only be used once at this location.")
  | .extendsOtherKind name kind =>
      .ok ("Cannot extend non-" ++ kind.words ++ " type '" ++ name ++ "'.")
  | .extendsUndefined name known => do
      pure ("Cannot extend type '" ++ name ++ "' because it is not defined."
        ++ didYouMean (← suggestions name known))
  | .unknownArgument name directive known => do
      pure ("Unknown argument '" ++ name ++ "' on directive '@" ++ directive ++ "'."
        ++ didYouMean (← suggestions name known))
  | .repeatedArgument name => .ok ("There can be only one argument named '" ++ name ++ "'.")
  | .repeatedInputField name =>
      .ok ("There can be only one input field named '" ++ name ++ "'.")
  | .missingArgument directive argument type =>
      .ok ("Directive '@" ++ directive ++ "' argument '" ++ argument ++ "' of type '"
        ++ type.print ++ "' is required, but it was not provided.")

namespace Rules

/-! ## Repetitions -/

/-- The names that came before, once for each time that they come again. -/
def repeats (seen : List Text) : List Text → List Text
  | [] => []
  | name :: rest =>
      if seen.contains name then name :: repeats seen rest else repeats (name :: seen) rest

/-- The names that come more than once, each of them once. -/
def repeatedNames (names : List Text) : List Text :=
  (distinctNames names).filter fun name => names.count name > 1

/-! ## What a document defines -/

/-- The definitions that the rules look names up in. -/
structure Vocabulary where
  types : List TypeDefinition
  directives : List DirectiveDefinition

/-- The type that a definition defines. -/
def definedType? : Definition → Option TypeDefinition
  | .type t => some t
  | _ => none

/-- The directive that a definition defines. -/
def definedDirective? : Definition → Option DirectiveDefinition
  | .directive d => some d
  | _ => none

namespace Vocabulary

/-- What definitions define. -/
def ofDefinitions (definitions : List Definition) : Vocabulary :=
  ⟨definitions.filterMap definedType?, definitions.filterMap definedDirective?⟩

/-- The names of the types, in order. -/
def typeNames (vocabulary : Vocabulary) : List Text :=
  vocabulary.types.map TypeDefinition.name

/-- The last type of a name. -/
def type? (vocabulary : Vocabulary) (name : Text) : Option TypeDefinition :=
  vocabulary.types.reverse.find? fun type => type.name == name

/-- The last directive of a name, or else the one that every schema has. -/
def directive? (vocabulary : Vocabulary) (name : Text) : Option DirectiveDefinition :=
  (vocabulary.directives.reverse ++ Builtin.directives).find? fun directive =>
    directive.name == name

/-- Whether a directive may stand once only in a place. -/
def standsOnce (vocabulary : Vocabulary) (name : Text) : Bool :=
  (vocabulary.directive? name).any fun directive => !directive.repeatable

end Vocabulary

/-- Where a type is named: in a definition, where the types that every schema has are known,
    or in an operation or fragment, where they are not. -/
inductive Scope
  | definition | operation
  deriving DecidableEq, Repr

/-! ## Types and values -/

/-- The faults of naming a type. -/
def typeFaults (vocabulary : Vocabulary) (scope : Scope) (name : Text) : List RuleFault :=
  if vocabulary.typeNames.contains name then []
  else match scope with
    | .definition =>
        if Builtin.typeNames.contains name then []
        else [.unknownType name (Builtin.typeNames ++ vocabulary.typeNames)]
    | .operation => [.unknownType name vocabulary.typeNames]

mutual

/-- The faults of a value: fields that come again in an object. -/
def valueFaults : Value → List RuleFault
  | .list items => itemFaults items
  | .object fields => fieldFaults [] fields
  | _ => []

/-- The faults of the items of a list. -/
def itemFaults : List Value → List RuleFault
  | [] => []
  | item :: rest => valueFaults item ++ itemFaults rest

/-- The faults of the fields of an object, where some names were seen already. -/
def fieldFaults (seen : List Text) : List (Text × Value) → List RuleFault
  | [] => []
  | (name, value) :: rest =>
      (if seen.contains name then [.repeatedInputField name] else [])
        ++ valueFaults value ++ fieldFaults (name :: seen) rest

end

/-- The faults of an optional value. -/
def defaultFaults (value : Option Value) : List RuleFault :=
  match value with
  | none => []
  | some value => valueFaults value

/-! ## Directives -/

/-- The arguments that a directive must be given: required ones without a default.  Of
    arguments of one name the last gives the type. -/
def requiredArguments (directive : DirectiveDefinition) : List (Text × TypeRef) :=
  let required := directive.arguments.filter fun argument =>
    argument.type.required && argument.defaultValue.isNone
  (distinctNames (required.map InputValue.name)).filterMap fun name =>
    (required.reverse.find? fun argument => argument.name == name).map fun argument =>
      (name, argument.type)

/-- The faults of arguments that come again. -/
def argumentFaults (arguments : List Argument) : List RuleFault :=
  (repeatedNames (arguments.map Argument.name)).map .repeatedArgument

/-- The faults of the values of arguments. -/
def argumentValueFaults (arguments : List Argument) : List RuleFault :=
  arguments.flatMap fun argument => valueFaults argument.value

/-- The faults of a directive by itself, put in a place. -/
def directiveFaults (vocabulary : Vocabulary) (location : DirectiveLocation)
    (directive : Directive) : List RuleFault :=
  let name := directive.name
  let given := directive.arguments.map Argument.name
  match vocabulary.directive? name with
  | none =>
      .unknownDirective name :: argumentFaults directive.arguments
        ++ argumentValueFaults directive.arguments
  | some definition =>
      let known := definition.arguments.map InputValue.name
      (if definition.locations.contains location then []
        else [.misplacedDirective name location])
        ++ (given.filter fun argument => !known.contains argument).map
          (RuleFault.unknownArgument · name known)
        ++ argumentFaults directive.arguments
        ++ argumentValueFaults directive.arguments
        ++ ((requiredArguments definition).filter fun required =>
            !given.contains required.1).map
          fun required => .missingArgument name required.1 required.2

/-- The faults of directives by themselves, put in a place. -/
def directivesFaults (vocabulary : Vocabulary) (location : DirectiveLocation)
    (directives : List Directive) : List RuleFault :=
  directives.flatMap (directiveFaults vocabulary location)

/-- The faults of directives that come again in a place where others stand already. -/
def onceFaults (vocabulary : Vocabulary) (others directives : List Directive) :
    List RuleFault :=
  let once (directives : List Directive) :=
    (directives.map Directive.name).filter vocabulary.standsOnce
  (repeats (once others) (once directives)).map .repeatedDirective

/-! ## Members -/

/-- The faults of an argument definition or a field of an input type. -/
def inputFaults (vocabulary : Vocabulary) (location : DirectiveLocation) (input : InputValue) :
    List RuleFault :=
  onceFaults vocabulary [] input.directives
    ++ typeFaults vocabulary .definition input.type.name
    ++ defaultFaults input.defaultValue
    ++ directivesFaults vocabulary location input.directives

/-- The faults of a member of a type.  A field that an extension adds to an input type counts
    as an argument. -/
def memberFaults (vocabulary : Vocabulary) (extension : Bool) : Member → List RuleFault
  | .field field =>
      onceFaults vocabulary [] field.directives
        ++ field.arguments.flatMap (inputFaults vocabulary .argumentDefinition)
        ++ typeFaults vocabulary .definition field.type.name
        ++ directivesFaults vocabulary .fieldDefinition field.directives
  | .input input =>
      inputFaults vocabulary
        (if extension then .argumentDefinition else .inputFieldDefinition) input
  | .value value =>
      onceFaults vocabulary [] value.directives
        ++ directivesFaults vocabulary .enumValue value.directives

/-! ## Selections -/

mutual

/-- The faults of a selection. -/
def selectionFaults (vocabulary : Vocabulary) : Selection → List RuleFault
  | .field _ _ arguments directives selections =>
      onceFaults vocabulary [] directives ++ argumentFaults arguments
        ++ argumentValueFaults arguments
        ++ directivesFaults vocabulary .field directives
        ++ selectionsFaults vocabulary selections
  | .spread _ directives =>
      onceFaults vocabulary [] directives
        ++ directivesFaults vocabulary .fragmentSpread directives
  | .inline typeCondition directives selections =>
      onceFaults vocabulary [] directives
        ++ (typeCondition.toList.flatMap (typeFaults vocabulary .operation))
        ++ directivesFaults vocabulary .inlineFragment directives
        ++ selectionsFaults vocabulary selections

/-- The faults of a set of selections. -/
def selectionsFaults (vocabulary : Vocabulary) : List Selection → List RuleFault
  | [] => []
  | selection :: rest => selectionFaults vocabulary selection ++ selectionsFaults vocabulary rest

end

/-- The faults of the definition of a variable. -/
def variableFaults (vocabulary : Vocabulary) (variableDefinition : VariableDefinition) :
    List RuleFault :=
  onceFaults vocabulary [] variableDefinition.directives
    ++ typeFaults vocabulary .operation variableDefinition.type.name
    ++ defaultFaults variableDefinition.defaultValue
    ++ directivesFaults vocabulary .variableDefinition variableDefinition.directives

/-- The place of directives on an operation. -/
def operationLocation : OperationKind → DirectiveLocation
  | .query => .query
  | .mutation => .mutation
  | .subscription => .subscription

/-! ## Definitions among others -/

/-- The schema declaration or extension that a definition is. -/
def schemaPart? : Definition → Option SchemaBlock
  | .schema s => some s
  | .extendSchema s => some s
  | _ => none

/-- The type definition or extension that a definition is. -/
def typePart? : Definition → Option TypeDefinition
  | .type t => some t
  | .extendType t => some t
  | _ => none

/-- The type with members that a definition is or extends. -/
def blockPart? (definition : Definition) : Option Block :=
  match typePart? definition with
  | some (.block b) => some b
  | _ => none

/-- The names of the members that definitions declare for a type, values of enums or all
    others. -/
def declaredNames (enums : Bool) (type : Text) (definitions : List Definition) : List Text :=
  ((definitions.filterMap blockPart?).filter fun block =>
    block.name == type && (block.kind == .enum) == enums).flatMap fun block =>
      (Entry.nodes block.members).map Member.name

/-- The faults of a schema declaration or extension as a whole. -/
def schemaWholeFaults (before : List Definition) (isDefinition : Bool) (schema : SchemaBlock) :
    List RuleFault :=
  let offered (schema : SchemaBlock) := schema.operations.map fun root => root.operation.keyword
  (if isDefinition && before.any Definition.isSchema then [.secondSchema] else [])
    ++ (repeats ((before.filterMap schemaPart?).flatMap offered) (offered schema)).filterMap
      fun word => (OperationKind.ofKeyword? word).map .secondRoot

/-- The faults of the members of a type as a whole: names that come again in the type and its
    extensions, and arguments that come again in a field. -/
def blockWholeFaults (before : List Definition) (block : Block) : List RuleFault :=
  let members := Entry.nodes block.members
  let isEnum := block.kind == .enum
  (repeats (declaredNames isEnum block.name before) (members.map Member.name)).map
      (fun name =>
        if isEnum then .secondEnumValue block.name name else .secondField block.name name)
    ++ members.flatMap fun member => match member with
      | .field field =>
          (repeatedNames (field.arguments.map InputValue.name)).map
            (.secondArgument (block.name ++ "." ++ field.name))
      | _ => []

/-- The faults of a type definition or extension as a whole. -/
def typeWholeFaults (before : List Definition) : TypeDefinition → List RuleFault
  | .block block => blockWholeFaults before block
  | _ => []

/-- The faults of an extension because of what it extends. -/
def extensionFaults (vocabulary : Vocabulary) (type : TypeDefinition) : List RuleFault :=
  match vocabulary.type? type.name with
  | none => [.extendsUndefined type.name vocabulary.typeNames]
  | some definition =>
      if definition.kind = type.kind then [] else [.extendsOtherKind type.name type.kind]

/-- The directives that stand already on a schema. -/
def schemaDirectives (before : List Definition) : List Directive :=
  (before.filterMap schemaPart?).flatMap SchemaBlock.directives

/-- The directives that stand already on a type. -/
def typeDirectives (before : List Definition) (name : Text) : List Directive :=
  ((before.filterMap typePart?).filter fun type => type.name == name).flatMap
    TypeDefinition.directives

/-- The faults of the parts of a schema declaration or extension. -/
def schemaPartFaults (vocabulary : Vocabulary) (schema : SchemaBlock) : List RuleFault :=
  directivesFaults vocabulary .schema schema.directives
    ++ schema.operations.flatMap fun root => typeFaults vocabulary .definition root.type

/-- The place of directives on a type. -/
def typeLocation : TypeKind → DirectiveLocation
  | .scalar => .scalar
  | .object => .object
  | .interface => .interface
  | .union => .union
  | .enum => .enum
  | .input => .inputObject

/-- The faults of the parts of a type definition or extension. -/
def typePartFaults (vocabulary : Vocabulary) (extension : Bool) (type : TypeDefinition) :
    List RuleFault :=
  let directives := directivesFaults vocabulary (typeLocation type.kind) type.directives
  match type with
  | .scalar _ => directives
  | .block block =>
      block.interfaces.flatMap (typeFaults vocabulary .definition) ++ directives
        ++ (Entry.nodes block.members).flatMap (memberFaults vocabulary extension)
  | .union union => directives ++ union.types.flatMap (typeFaults vocabulary .definition)

/-- The faults of a definition behind others. -/
def definitionFaults (vocabulary : Vocabulary) (before : List Definition) :
    Definition → List RuleFault
  | .schema schema =>
      schemaWholeFaults before true schema
        ++ onceFaults vocabulary (schemaDirectives before) schema.directives
        ++ schemaPartFaults vocabulary schema
  | .extendSchema schema =>
      schemaWholeFaults before false schema
        ++ onceFaults vocabulary (schemaDirectives before) schema.directives
        ++ schemaPartFaults vocabulary schema
  | .type type =>
      (if (before.filterMap definedType?).any fun other => other.name == type.name
        then [.secondType type.name] else [])
        ++ typeWholeFaults before type
        ++ onceFaults vocabulary (typeDirectives before type.name) type.directives
        ++ typePartFaults vocabulary false type
  | .extendType type =>
      typeWholeFaults before type
        ++ onceFaults vocabulary (typeDirectives before type.name) type.directives
        ++ extensionFaults vocabulary type
        ++ typePartFaults vocabulary true type
  | .directive directive =>
      (repeatedNames (directive.arguments.map InputValue.name)).map
          (.secondArgument ('@' :: directive.name))
        ++ (if (before.filterMap definedDirective?).any fun other => other.name == directive.name
          then [.secondDirective directive.name] else [])
        ++ directive.arguments.flatMap (inputFaults vocabulary .argumentDefinition)
  | .operation operation =>
      onceFaults vocabulary [] operation.directives
        ++ operation.variableDefinitions.flatMap (variableFaults vocabulary)
        ++ directivesFaults vocabulary (operationLocation operation.kind) operation.directives
        ++ selectionsFaults vocabulary operation.selections
  | .fragment fragment =>
      onceFaults vocabulary [] fragment.directives
        ++ typeFaults vocabulary .operation fragment.typeCondition
        ++ directivesFaults vocabulary .fragmentDefinition fragment.directives
        ++ selectionsFaults vocabulary fragment.selections

/-- The faults of definitions behind others. -/
def faultsFrom (vocabulary : Vocabulary) (before : List Definition) :
    List Definition → List RuleFault
  | [] => []
  | definition :: rest =>
      definitionFaults vocabulary before definition
        ++ faultsFrom vocabulary (before ++ [definition]) rest

/-- The rules that definitions break, in the order of the walk. -/
def faults (definitions : List Definition) : List RuleFault :=
  faultsFrom (Vocabulary.ofDefinitions definitions) [] definitions

end Rules

end SchemaStitch

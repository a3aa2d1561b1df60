import SchemaStitch.Document.Printer
import SchemaStitch.Schema

/-! # Building a schema

    A document that breaks no rule is built into a schema.  What can still go wrong is a
    type of a kind that does not fit its place, and a bad argument of the two directives
    that are evaluated: `@deprecated` and `@specifiedBy`.  The first fault ends the
    building.

    Types are made in the order of their definitions, then directives, then what the types
    refer to is looked at, type by type.  A default value is fitted to its type; one that
    does not fit is dropped, but fitting an object looks at the fields of its input type,
    and a fault found there is reported as one of that type.  Default values that lead from
    a type back to itself are such a fault.  An input type may take exactly one of its
    fields; an object that gives none, several or null does not fit it. -/

namespace SchemaStitch

/-! ## Faults -/

/-- What is wrong with an argument of a directive that is evaluated. -/
inductive ArgumentFault
  | invalid (argument : Text) (value : Value)
  | null (argument : Text) (type : TypeRef)
  | missing (argument : Text) (type : TypeRef)
  deriving Repr

/-- The message about an argument of a directive. -/
def ArgumentFault.message : ArgumentFault → Text
  | .invalid argument value =>
      "Argument '" ++ argument ++ "' has invalid value " ++ value.print ++ "."
  | .null argument type =>
      "Argument '" ++ argument ++ "' of non-null type '" ++ type.print ++ "' must not be null."
  | .missing argument type =>
      "Argument '" ++ argument ++ "' of required type '" ++ type.print ++ "' was not provided."

/-- What a directive stands on: a type, a directive definition, or a part of one of them. -/
inductive SiteOwner
  | type (name : Text)
  | directive (name : Text)
  deriving DecidableEq, Repr

/-- Where an evaluated directive stands: on a type or one of its members, or on an argument
    of a field or directive; and which argument of it is meant. -/
structure Site where
  owner : SiteOwner
  member : Option Text
  argument : Option Text
  directive : Text
  directiveArgument : Text
  deriving DecidableEq, Repr

/-- Why a document builds no schema. -/
inductive BuildFault
  | argumentType
  | fieldType
  | inputFieldType
  | interfaces (type : Text)
  | unionTypes (type : Text)
  | defaultType (name : Text)
  | directiveArgument (fault : ArgumentFault) (site : Site)
  | endlessDefaults
  | fields (type : Text) (cause : BuildFault)
  deriving Repr

/-- The message about a document that builds no schema, without the excerpt that follows if
    a directive is to blame. -/
def BuildFault.message : BuildFault → Text
  | .argumentType => "Argument type must be a GraphQL input type."
  | .fieldType => "Field type must be an output type."
  | .inputFieldType => "Input field type must be a GraphQL input type."
  | .interfaces type =>
      type ++ " interfaces must be specified as a collection of GraphQLInterfaceType instances."
  | .unionTypes type =>
      type ++ " types must be specified as a collection of GraphQLObjectType instances."
  | .defaultType name => "Unexpected input type: " ++ name ++ "."
  | .directiveArgument fault _ => fault.message
  | .endlessDefaults => "maximum recursion depth exceeded"
  | .fields type cause => type ++ " fields cannot be resolved. " ++ cause.message

/-- Where the directive to blame stands, if one is. -/
def BuildFault.site? : BuildFault → Option Site
  | .directiveArgument _ site => some site
  | .fields _ cause => cause.site?
  | _ => none

namespace Build

/-! ## What the definitions say of a name -/

/-- The definition of a type by a name that not every schema has. -/
def ownType? : Definition → Option TypeDefinition
  | .type t => if Builtin.typeNames.contains t.name then none else some t
  | _ => none

/-- The types that a document adds to those of every schema, in order. -/
def ownTypes (definitions : List Definition) : List TypeDefinition :=
  definitions.filterMap ownType?

/-- The extension that a definition is. -/
def extension? : Definition → Option TypeDefinition
  | .extendType t => some t
  | _ => none

/-- The definition of a type and its extensions, in order. -/
def partsOf (definitions : List Definition) (type : TypeDefinition) : List TypeDefinition :=
  type :: (definitions.filterMap extension?).filter fun extension => extension.name == type.name

/-- The members that a part of a type declares. -/
def membersOfPart : TypeDefinition → List Member
  | .block b => Entry.nodes b.members
  | _ => []

/-- The interfaces that a part of a type names. -/
def interfacesOfPart : TypeDefinition → List Text
  | .block b => b.interfaces
  | _ => []

/-- The types that a part of a union names. -/
def typesOfPart : TypeDefinition → List Text
  | .union u => u.types
  | _ => []

/-- The members of a type and its extensions, in order. -/
def membersOf (definitions : List Definition) (type : TypeDefinition) : List Member :=
  (partsOf definitions type).flatMap membersOfPart

/-- The interfaces of a type and its extensions, in order. -/
def interfacesOf (definitions : List Definition) (type : TypeDefinition) : List Text :=
  (partsOf definitions type).flatMap interfacesOfPart

/-- The types of a union and its extensions, in order. -/
def unionTypesOf (definitions : List Definition) (type : TypeDefinition) : List Text :=
  (partsOf definitions type).flatMap typesOfPart

/-- The definition of a type by its name. -/
def type? (definitions : List Definition) (name : Text) : Option TypeDefinition :=
  (ownTypes definitions).reverse.find? fun type => type.name == name

/-- The kind of a type by its name. -/
def kind? (definitions : List Definition) (name : Text) : Option TypeKind :=
  match Builtin.kind? name with
  | some kind => some kind
  | none => (type? definitions name).map TypeDefinition.kind

/-- Whether a type by its name may be that of a value sent to the schema. -/
def isInput (definitions : List Definition) (name : Text) : Bool :=
  (kind? definitions name).any TypeKind.isInput

/-- Whether a type by its name may be that of a value received from the schema. -/
def isOutput (definitions : List Definition) (name : Text) : Bool :=
  (kind? definitions name).any TypeKind.isOutput

/-- The values of an enum by its name. -/
def enumValues (definitions : List Definition) (name : Text) : List Text :=
  match type? definitions name with
  | none => Builtin.enumValues name
  | some type => (membersOf definitions type).map Member.name

/-! ## Directives that are evaluated -/

/-- The fault of the only argument of an evaluated directive, where that is to be a string,
    and null or nothing only if it is not required. -/
def argumentFault? (required : Bool) (argument : Text) (directive : Directive) :
    Option ArgumentFault :=
  let type : TypeRef := .named "String" required
  match (directive.arguments.reverse.find? fun given => given.name == argument).map
    Argument.value with
  | none => if required then some (.missing argument type) else none
  | some .null => if required then some (.null argument type) else none
  | some (.string _) => none
  | some value => some (.invalid argument value)

/-- Evaluate the first use of a directive. -/
def evaluate (required : Bool) (directives : List Directive) (site : Site) :
    Except BuildFault Unit :=
  match directives.find? fun directive => directive.name == site.directive with
  | none => .ok ()
  | some directive =>
      match argumentFault? required site.directiveArgument directive with
      | none => .ok ()
      | some fault => .error (.directiveArgument fault site)

/-- Evaluate the deprecation of a part of a type or directive. -/
def evaluateDeprecation (owner : SiteOwner) (member argument : Option Text)
    (directives : List Directive) : Except BuildFault Unit :=
  evaluate false directives ⟨owner, member, argument, "deprecated", "reason"⟩

/-- Evaluate the specification of a scalar. -/
def evaluateSpecification (scalar : ScalarType) : Except BuildFault Unit :=
  evaluate true scalar.directives ⟨.type scalar.name, none, none, "specifiedBy", "url"⟩

/-! ## Fitting default values -/

/-- What a value is to a type: nothing if it does not fit, null, or another value. -/
inductive Fit
  | nothing
  | null
  | value
  deriving DecidableEq, Repr

/-- A field of an input type as a value meets it: what it is by default is nothing if it has
    no default that fits. -/
structure Slot where
  name : Text
  type : TypeRef
  default : Fit

/-- The number that digits with an optional sign spell. -/
def intOfDigits (digits : Text) : Int :=
  match digits with
  | '-' :: rest => -(Text.toNat rest : Int)
  | _ => Text.toNat digits

/-- Whether an integer fits into 32 bits. -/
def isInt32 (digits : Text) : Bool :=
  -2147483648 ≤ intOfDigits digits && intOfDigits digits ≤ 2147483647

/-- Whether a value other than null fits a scalar.  A scalar of the document's own takes
    values of any form. -/
def fitsScalar (name : Text) (value : Value) : Bool :=
  if name = "Int" then match value with
    | .int digits => isInt32 digits
    | _ => false
  else if name = "Float" then match value with
    | .int _ => true
    | .float _ => true
    | _ => false
  else if name = "String" then match value with
    | .string _ => true
    | _ => false
  else if name = "Boolean" then match value with
    | .boolean _ => true
    | _ => false
  else if name = "ID" then match value with
    | .string _ => true
    | .int _ => true
    | _ => false
  else true

/-- A value other than null that fits if a condition holds. -/
def Fit.ofBool (fits : Bool) : Fit :=
  if fits then .value else .nothing

/-- Fits a value that is known to a type that is not. -/
abbrev Fitting := TypeRef → Except BuildFault Fit

/-- Fit the items of a list to a type; those behind one that does not fit are not looked
    at. -/
def fitAll (type : TypeRef) : List Fitting → Except BuildFault Fit
  | [] => .ok .value
  | fit :: rest => do
      match ← fit type with
      | .nothing => pure .nothing
      | _ => fitAll type rest

/-- Fit the fields of an object to the fields of an input type; those behind one that does
    not fit are not looked at.  If all fit, this is what they are, without those that are
    left out and have no default. -/
def fitSlots (fields : List (Text × Fitting)) : List Slot → Except BuildFault (Option (List Fit))
  | [] => .ok (some [])
  | slot :: rest =>
      match fields.reverse.find? fun field => field.1 == slot.name with
      | some (_, fit) => do
          match ← fit slot.type with
          | .nothing => pure none
          | fitted => return (← fitSlots fields rest).map (fitted :: ·)
      | none =>
          match slot.default with
          | .nothing => if slot.type.required then .ok none else fitSlots fields rest
          | fitted => do return (← fitSlots fields rest).map (fitted :: ·)

/-- Whether an input type by its name takes exactly one of its fields. -/
def takesOneField (definitions : List Definition) (name : Text) : Bool :=
  match type? definitions name with
  | some (.block block) => block.directives.any fun directive => directive.name == "oneOf"
  | _ => false

/-- Whether the fields of an object may stand together: all of them, or one that is not
    null. -/
def mayStandTogether (oneField : Bool) (fitted : List Fit) : Bool :=
  !oneField || fitted == [.value]

/-- Fit a value other than null to a type by its name, where `slots` yields the fields of an
    input type, and `fields` those of the value if it is an object. -/
def fitNamed (definitions : List Definition) (slots : Text → Except BuildFault (List Slot))
    (name : Text) (value : Value) (fields : Option (List (Text × Fitting))) :
    Except BuildFault Fit :=
  match kind? definitions name with
  | some .input =>
      match fields with
      | none => .ok .nothing
      | some fields => do
          let fitted ← fitSlots fields (← slots name)
          pure (Fit.ofBool (fitted.any (mayStandTogether (takesOneField definitions name))))
  | some .scalar => .ok (Fit.ofBool (fitsScalar name value))
  | some .enum =>
      match value with
      | .enum chosen => .ok (Fit.ofBool ((enumValues definitions name).contains chosen))
      | _ => .ok .nothing
  | some _ => .error (.defaultType name)
  | none => .ok .nothing

mutual

/-- Fit a value to a type.  A value that is no list fits a list as its only item. -/
def fitting (definitions : List Definition) (slots : Text → Except BuildFault (List Slot)) :
    Value → Fitting
  | .null, type => .ok (if type.required then .nothing else .null)
  | .list items, .list item _ => fitAll item (fittings definitions slots items)
  | .list items, .named name _ => fitNamed definitions slots name (.list items) none
  | .object fields, type =>
      fitNamed definitions slots type.name (.object fields)
        (some (fieldFittings definitions slots fields))
  | value, type => fitNamed definitions slots type.name value none

/-- The fittings of the items of a list. -/
def fittings (definitions : List Definition) (slots : Text → Except BuildFault (List Slot)) :
    List Value → List Fitting
  | [] => []
  | item :: rest => fitting definitions slots item :: fittings definitions slots rest

/-- The fittings of the fields of an object. -/
def fieldFittings (definitions : List Definition)
    (slots : Text → Except BuildFault (List Slot)) :
    List (Text × Value) → List (Text × Fitting)
  | [] => []
  | (name, value) :: rest =>
      (name, fitting definitions slots value) :: fieldFittings definitions slots rest

end

/-- Fit an optional default value; nothing if there is none. -/
def fitDefault (definitions : List Definition) (slots : Text → Except BuildFault (List Slot))
    (input : InputValue) : Except BuildFault Fit :=
  match input.defaultValue with
  | none => .ok .nothing
  | some value => fitting definitions slots value input.type

/-! ## Members -/

/-- A field of an input type, looked at. -/
def checkInputField (definitions : List Definition)
    (slots : Text → Except BuildFault (List Slot)) (type : Text) (input : InputValue) :
    Except BuildFault Slot := do
  let default ← fitDefault definitions slots input
  evaluateDeprecation (.type type) (some input.name) none input.directives
  if isInput definitions input.type.name then
    pure { name := input.name, type := input.type, default }
  else throw .inputFieldType

/-- The input values among members. -/
def inputs (members : List Member) : List InputValue :=
  members.filterMap fun member => match member with
    | .input input => some input
    | _ => none

/-- The fields of an input type by its name, where `slots` yields those of the input types
    that default values lead on to. -/
def slotsFrom (definitions : List Definition) (slots : Text → Except BuildFault (List Slot))
    (name : Text) : Except BuildFault (List Slot) :=
  match type? definitions name with
  | none => .ok []
  | some type =>
      ((inputs (membersOf definitions type)).mapM (checkInputField definitions slots name)).mapError
        (.fields name)

/-- The fields of an input type by its name.  What default values lead on to is at most as far
    away as the first argument says; behind that is a fault. -/
def slotsWithin (definitions : List Definition) : Nat → Text → Except BuildFault (List Slot)
  | 0, _ => .error .endlessDefaults
  | depth + 1, name => slotsFrom definitions (slotsWithin definitions depth) name

/-- The fields of an input type by its name.  Without coming back to a type, default values
    lead no further than there are types. -/
def slots (definitions : List Definition) (name : Text) : Except BuildFault (List Slot) :=
  slotsWithin definitions (definitions.length + 1) name

/-- An argument definition, looked at. -/
def checkArgument (definitions : List Definition) (owner : SiteOwner) (member : Option Text)
    (argument : InputValue) : Except BuildFault Unit := do
  let _ ← fitDefault definitions (slots definitions) argument
  evaluateDeprecation owner member (some argument.name) argument.directives
  if !isInput definitions argument.type.name then throw .argumentType

/-- A field of an object or interface, looked at. -/
def checkField (definitions : List Definition) (type : Text) (field : Field) :
    Except BuildFault Unit := do
  field.arguments.forM (checkArgument definitions (.type type) (some field.name))
  evaluateDeprecation (.type type) (some field.name) none field.directives
  if !isOutput definitions field.type.name then throw .fieldType

/-- The fields among members. -/
def fieldsAmong (members : List Member) : List Field :=
  members.filterMap fun member => match member with
    | .field field => some field
    | _ => none

/-! ## Types and directives -/

/-- What is evaluated when a type is made. -/
def makeType (definitions : List Definition) : TypeDefinition → Except BuildFault Unit
  | .scalar scalar => evaluateSpecification scalar
  | .block block =>
      if block.kind = .enum then
        (membersOf definitions (.block block)).forM fun member =>
          evaluateDeprecation (.type block.name) (some member.name) none member.directives
      else .ok ()
  | .union _ => .ok ()

/-- The interfaces of a type, looked at. -/
def checkInterfaces (definitions : List Definition) (type : TypeDefinition) :
    Except BuildFault Unit :=
  if (interfacesOf definitions type).all fun name => kind? definitions name = some .interface then
    .ok ()
  else .error (.interfaces type.name)

/-- What a type refers to, looked at. -/
def checkType (definitions : List Definition) (type : TypeDefinition) : Except BuildFault Unit :=
  match type.kind with
  | .scalar => .ok ()
  | .enum => .ok ()
  | .union =>
      if (unionTypesOf definitions type).all fun name => kind? definitions name = some .object then
        .ok ()
      else .error (.unionTypes type.name)
  | .input => (slots definitions type.name).map fun _ => ()
  | _ => do
      checkInterfaces definitions type
      ((fieldsAmong (membersOf definitions type)).forM (checkField definitions type.name)).mapError
        (.fields type.name)

/-- The directive that a definition defines. -/
def directive? : Definition → Option DirectiveDefinition
  | .directive d => some d
  | _ => none

/-- The directives that a document defines, in order. -/
def ownDirectives (definitions : List Definition) : List DirectiveDefinition :=
  definitions.filterMap directive?

/-- The definition of a directive, looked at. -/
def checkDirective (definitions : List Definition) (directive : DirectiveDefinition) :
    Except BuildFault Unit :=
  directive.arguments.forM (checkArgument definitions (.directive directive.name) none)

/-! ## The schema -/

/-- A field as the schema offers it. -/
def schemaField (field : Field) : SchemaField :=
  { name := field.name
    type := field.type
    arguments := field.arguments.map fun argument => (argument.name, argument.type) }

/-- A type as the schema offers it. -/
def schemaType (definitions : List Definition) (type : TypeDefinition) : SchemaType :=
  let members := membersOf definitions type
  let fields := (fieldsAmong members).map schemaField
  match type.kind with
  | .scalar => .scalar
  | .object => .object (interfacesOf definitions type) fields
  | .interface => .interface (interfacesOf definitions type) fields
  | .union => .union (unionTypesOf definitions type)
  | .enum => .enum (members.map Member.name)
  | .input => .input ((inputs members).map fun input => (input.name, input.type))

/-- The root operations that schema declarations among definitions list. -/
def declaredRoots (definitions : List Definition) : List RootOperation :=
  definitions.flatMap fun definition => match definition with
    | .schema s => s.operations
    | _ => []

/-- The root operations that schema extensions among definitions list. -/
def extendedRoots (definitions : List Definition) : List RootOperation :=
  definitions.flatMap fun definition => match definition with
    | .extendSchema s => s.operations
    | _ => []

/-- The customary name of the type for an operation. -/
def customaryRoot : OperationKind → Text
  | .query => "Query"
  | .mutation => "Mutation"
  | .subscription => "Subscription"

/-- The type for an operation: what the schema declaration and its extensions list, or, where
    there is no declaration, the type of the customary name before what extensions list. -/
def root? (definitions : List Definition) (operation : OperationKind) : Option Text :=
  let listed (roots : List RootOperation) : Option Text :=
    (roots.reverse.find? fun root => root.operation == operation).map RootOperation.type
  if definitions.any Definition.isSchema then
    listed (declaredRoots definitions ++ extendedRoots definitions)
  else if definitions.any fun definition => match definition with
      | .type t => t.name == customaryRoot operation
      | _ => false
    then some (customaryRoot operation)
  else listed (extendedRoots definitions)

/-- The names of the directives: those that the document defines, then the others that every
    schema has. -/
def directiveNames (definitions : List Definition) : List Text :=
  let own := (ownDirectives definitions).map DirectiveDefinition.name
  own ++ (Builtin.directives.map DirectiveDefinition.name).filter fun name => !own.contains name

end Build

/-- The schema of definitions that break no rule, or the first fault in building it. -/
def Schema.build (definitions : List Definition) : Except BuildFault Schema := do
  let types := Build.ownTypes definitions
  types.forM (Build.makeType definitions)
  (Build.ownDirectives definitions).forM (Build.checkDirective definitions)
  types.forM (Build.checkType definitions)
  pure
    { query := Build.root? definitions .query
      mutation := Build.root? definitions .mutation
      subscription := Build.root? definitions .subscription
      types := types.map fun type => (type.name, Build.schemaType definitions type)
      directives := Build.directiveNames definitions }

end SchemaStitch

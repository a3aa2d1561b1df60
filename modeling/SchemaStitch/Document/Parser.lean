import SchemaStitch.Document
import SchemaStitch.Token.Lexer
import SchemaStitch.Listing

/-! # From lexemes to documents

    A parser takes lexemes from the front of a list and yields a value and the lexemes
    behind it.  The head of the list is the current token.  Passing over a token looks at
    the one behind it, so a lexical fault shows as soon as its lexeme becomes current.

    Lists, objects, list types and sets of selections may be open in one another up to a
    fixed depth; what is left of it is the argument that the recursive parsers go down
    on.  Repetition goes down on the number of lexemes that are left. -/

namespace SchemaStitch

/-- What can keep a sequence of tokens from being a document. -/
inductive SyntaxFault
  | lexical (fault : LexicalFault)
  | unexpected (found : Token)
  | expected (wanted : TokenKind) (found : Token)
  | wordExpected (wanted : Text) (found : Token)
  | variableInConstant (name : Text)
  | reservedEnumValue (found : Token)
  | descriptionOnShorthand
  | descriptionOnOther
  | nestedTooDeeply
  deriving DecidableEq, Repr

/-- The message of a syntax fault. -/
def SyntaxFault.message : SyntaxFault → Text
  | .lexical fault => fault.message
  | .unexpected found => "Unexpected " ++ found.title ++ "."
  | .expected wanted found => "Expected " ++ wanted.title ++ ", found " ++ found.title ++ "."
  | .wordExpected wanted found => "Expected '" ++ wanted ++ "', found " ++ found.title ++ "."
  | .variableInConstant name => "Unexpected variable '$" ++ name ++ "' in constant value."
  | .reservedEnumValue found =>
      found.title ++ " is reserved and cannot be used for an enum value."
  | .descriptionOnShorthand =>
      "Unexpected description, descriptions are not supported on shorthand queries."
  | .descriptionOnOther =>
      "Unexpected description, only GraphQL definitions support descriptions."
  | .nestedTooDeeply => "Document is nested too deeply. Parsing aborted."

/-- A syntax fault at an offset of a text. -/
structure SyntaxError where
  fault : SyntaxFault
  source : Text
  offset : Nat
  deriving DecidableEq, Repr

/-- The message of a syntax error, with an excerpt of the text. -/
def SyntaxError.message (error : SyntaxError) : Text :=
  "Syntax Error: " ++ error.fault.message ++ "\n\n" ++ excerpt error.source error.offset

/-- Takes lexemes from the front of a list, or fails at an offset. -/
abbrev Parser := StateT (List Lexeme) (Except (SyntaxFault × Nat))

namespace Parser

variable {α β : Type}

/-! ## Single tokens -/

/-- The current token and its offset. -/
def current : Parser (Token × Nat)
  | [] => .error (.unexpected .endOfText, 0)
  | lexeme :: rest =>
      match lexeme.token with
      | .ok token => .ok ((token, lexeme.start), lexeme :: rest)
      | .error fault => .error (.lexical fault, lexeme.start)

/-- The token behind the current one. -/
def following : Parser (Token × Nat)
  | first :: next :: rest =>
      (current (next :: rest)).map fun found => (found.1, first :: next :: rest)
  | lexemes => current lexemes

/-- Pass over the current token; the end of the text stays current. -/
def advance : Parser Unit
  | _ :: next :: rest => (current (next :: rest)).map fun found => ((), found.2)
  | lexemes => .ok ((), lexemes)

/-- Fail at the current token. -/
def failHere (fault : Token → SyntaxFault) : Parser α := do
  let (token, offset) ← current
  throw (fault token, offset)

/-- Fail because the current token has no place here. -/
def unexpected : Parser α :=
  failHere .unexpected

/-- Pass over a punctuator if it is current, and tell whether it was. -/
def skip (p : Punctuator) : Parser Bool := do
  let (token, _) ← current
  if token = .punctuator p then
    advance
    pure true
  else pure false

/-- Pass over a punctuator that has to be current. -/
def expect (p : Punctuator) : Parser Unit := do
  if !(← skip p) then failHere (.expected (.punctuator p))

/-- Pass over a word if it is current, and tell whether it was. -/
def skipWord (word : Text) : Parser Bool := do
  let (token, _) ← current
  if token = .name word then
    advance
    pure true
  else pure false

/-- Pass over a word that has to be current. -/
def expectWord (word : Text) : Parser Unit := do
  if !(← skipWord word) then failHere (.wordExpected word)

/-- A name. -/
def name : Parser Text := do
  match (← current).1 with
  | .name value =>
      advance
      pure value
  | _ => failHere (.expected .name)

/-! ## Repetition -/

/-- Items up to the end that `atEnd` passes over, at most as many as the bound says. -/
def itemsWithin (atEnd : Parser Bool) (item : Parser α) : Nat → Parser (List α)
  | 0 => unexpected
  | bound + 1 => do
      if ← atEnd then pure []
      else
        let first ← item
        let rest ← itemsWithin atEnd item bound
        pure (first :: rest)

/-- Items up to the end that `atEnd` passes over. -/
def itemsUntil (atEnd : Parser Bool) (item : Parser α) : Parser (List α) :=
  fun lexemes => itemsWithin atEnd item (lexemes.length + 1) lexemes

/-- One or more items up to the end that `atEnd` passes over. -/
def someUntil (atEnd : Parser Bool) (item : Parser α) : Parser (List α) := do
  let first ← item
  let rest ← itemsUntil atEnd item
  pure (first :: rest)

/-- Items between two punctuators. -/
def between (opening : Punctuator) (item : Parser α) (closing : Punctuator) :
    Parser (List α) := do
  expect opening
  itemsUntil (skip closing) item

/-- One or more items between two punctuators. -/
def someBetween (opening : Punctuator) (item : Parser α) (closing : Punctuator) :
    Parser (List α) := do
  expect opening
  someUntil (skip closing) item

/-- One or more items between two punctuators, or nothing at all. -/
def optionalBetween (opening : Punctuator) (item : Parser α) (closing : Punctuator) :
    Parser (List α) := do
  if ← skip opening then someUntil (skip closing) item else pure []

/-- One or more items with a separator between neighbours; it may stand before the first
    one, too. -/
def separated (separator : Punctuator) (item : Parser α) : Parser (List α) := do
  let _ ← skip separator
  let first ← item
  let rest ← itemsUntil (do pure (!(← skip separator))) item
  pure (first :: rest)

/-! ## Types and values -/

/-- How many lists, objects, list types and sets of selections may be open at once. -/
def maximalDepth : Nat := 200

/-- A name, required or not. -/
def namedType : Parser TypeRef := do
  let name ← name
  pure (.named name (← skip .bang))

/-- A reference to a type that opens at most as many lists as the depth allows. -/
def typeRefWithin : Nat → Parser TypeRef
  | 0 => do
      if ← skip .openBracket then failHere fun _ => .nestedTooDeeply else namedType
  | depth + 1 => do
      if ← skip .openBracket then
        let item ← typeRefWithin depth
        expect .closeBracket
        pure (.list item (← skip .bang))
      else namedType

/-- A reference to a type. -/
def typeRef : Parser TypeRef :=
  typeRefWithin maximalDepth

/-- A variable in a value; a constant must not hold one. -/
def variableRef (constant : Bool) : Parser Value := do
  let (dollar, offset) ← current
  expect .dollar
  if constant then
    match (← current).1 with
    | .name name => throw (.variableInConstant name, offset)
    | _ => throw (.unexpected dollar, offset)
  else
    pure (.variableRef (← name))

/-- The value that a name stands for. -/
def valueOfName (name : Text) : Value :=
  if name = "true" then .boolean true
  else if name = "false" then .boolean false
  else if name = "null" then .null
  else .enum name

/-- A value, given how to read a list and an object. -/
def valueWith (constant : Bool) (list object : Parser Value) : Parser Value := do
  let leaf (value : Value) : Parser Value := do
    advance
    pure value
  match (← current).1 with
  | .punctuator .openBracket => list
  | .punctuator .openBrace => object
  | .punctuator .dollar => variableRef constant
  | .int digits => leaf (.int digits)
  | .float digits => leaf (.float digits)
  | .string value => leaf (.string ⟨value, false⟩)
  | .blockString value => leaf (.string ⟨value, true⟩)
  | .name name => leaf (valueOfName name)
  | _ => unexpected

/-- A name, a colon and a value. -/
def labelled (value : Parser Value) : Parser (Text × Value) := do
  let name ← name
  expect .colon
  pure (name, ← value)

/-- A value that opens at most as many lists and objects as the depth allows. -/
def valueWithin (constant : Bool) : Nat → Parser Value
  | 0 =>
      valueWith constant (failHere fun _ => .nestedTooDeeply) (failHere fun _ => .nestedTooDeeply)
  | depth + 1 =>
      valueWith constant
        (do pure (.list (← between .openBracket (valueWithin constant depth) .closeBracket)))
        (do pure (.object
          (← between .openBrace (labelled (valueWithin constant depth)) .closeBrace)))

/-- A value without variables. -/
def constantValue : Parser Value :=
  valueWithin true maximalDepth

/-- A default value behind an equals sign, if there is one. -/
def defaultValue : Parser (Option Value) := do
  if ← skip .equals then pure (some (← constantValue)) else pure none

/-- Arguments in parentheses, if there are any. -/
def arguments (value : Parser Value) : Parser (List Argument) :=
  optionalBetween .openParen
    (do
      let (name, value) ← labelled value
      pure ⟨name, value⟩)
    .closeParen

/-- Whether no directive comes next; the sign of one that does is passed over. -/
def noDirective : Parser Bool := do
  pure (!(← skip .atSign))

/-- Directives, none or more. -/
def directives (value : Parser Value) : Parser (List Directive) :=
  itemsUntil noDirective do
    let name ← name
    pure ⟨name, ← arguments value⟩

/-- Directives whose arguments hold no variables. -/
def constantDirectives : Parser (List Directive) :=
  directives constantValue

/-- A description, if there is one. -/
def description : Parser (Option StringLiteral) := do
  match (← current).1 with
  | .string value =>
      advance
      pure (some ⟨value, false⟩)
  | .blockString value =>
      advance
      pure (some ⟨value, true⟩)
  | _ => pure none

/-! ## Members -/

/-- An argument definition or a field of an input type. -/
def inputValue : Parser InputValue := do
  let description ← description
  let name ← name
  expect .colon
  let type ← typeRef
  let defaultValue ← defaultValue
  let directives ← constantDirectives
  pure { description, name, type, defaultValue, directives }

/-- Argument definitions in parentheses, if there are any. -/
def argumentDefinitions : Parser (List InputValue) :=
  optionalBetween .openParen inputValue .closeParen

/-- A field. -/
def field : Parser Field := do
  let description ← description
  let name ← name
  let arguments ← argumentDefinitions
  expect .colon
  let type ← typeRef
  let directives ← constantDirectives
  pure { description, name, arguments, type, directives }

/-- Words that stand for values of their own and name no value of an enum. -/
def isReservedValue (word : Text) : Bool :=
  word = "true" || word = "false" || word = "null"

/-- A value of an enum.  A reserved word is refused by its text, be it a name or a
    string. -/
def enumValue : Parser EnumValue := do
  let description ← description
  if (← current).1.value?.any isReservedValue then failHere .reservedEnumValue
  let name ← name
  let directives ← constantDirectives
  pure { description, name, directives }

/-- A member of a type of the given kind. -/
def member : BlockKind → Parser Member
  | .object => do pure (.field (← field))
  | .interface => do pure (.field (← field))
  | .input => do pure (.input (← inputValue))
  | .enum => do pure (.value (← enumValue))

/-- Members in braces, if there are any. -/
def members (kind : BlockKind) : Parser (List (Entry Member)) := do
  let members ← optionalBetween .openBrace (member kind) .closeBrace
  pure (members.map .node)

/-! ## Type definitions -/

/-- The interfaces of a type, if it names any. -/
def interfaces : Parser (List Text) := do
  if ← skipWord "implements" then separated .ampersand name else pure []

/-- Whether types of a kind may have interfaces. -/
def mayImplement : BlockKind → Bool
  | .object => true
  | .interface => true
  | .input => false
  | .enum => false

/-- A type with members behind its keyword. -/
def block (kind : BlockKind) (description : Option StringLiteral) : Parser Block := do
  let name ← name
  let interfaces ← if mayImplement kind then interfaces else pure []
  let directives ← constantDirectives
  let members ← members kind
  pure { kind, description, name, interfaces, directives, members }

/-- A scalar type behind its keyword. -/
def scalarType (description : Option StringLiteral) : Parser ScalarType := do
  let name ← name
  let directives ← constantDirectives
  pure { description, name, directives }

/-- A union behind its keyword. -/
def unionType (description : Option StringLiteral) : Parser UnionType := do
  let unionName ← name
  let directives ← constantDirectives
  let types ← if ← skip .equals then separated .bar name else pure []
  pure { description, name := unionName, directives, types }

/-- How to go on behind the keyword of a type definition. -/
def typeDefinition? (word : Text) :
    Option (Option StringLiteral → Parser TypeDefinition) :=
  let block (kind : BlockKind) (description : Option StringLiteral) : Parser TypeDefinition := do
    pure (.block (← block kind description))
  if word = "scalar" then some fun description => do pure (.scalar (← scalarType description))
  else if word = "type" then some (block .object)
  else if word = "interface" then some (block .interface)
  else if word = "union" then some fun description => do pure (.union (← unionType description))
  else if word = "enum" then some (block .enum)
  else if word = "input" then some (block .input)
  else none

/-! ## Schema declarations and directives -/

/-- The word for an operation. -/
def operationKind : Parser OperationKind := do
  let (token, offset) ← current
  match OperationKind.ofKeyword? (← name) with
  | some kind => pure kind
  | none => throw (.unexpected token, offset)

/-- The type that a schema offers for an operation. -/
def rootOperation : Parser RootOperation := do
  let operation ← operationKind
  expect .colon
  let type ← name
  pure { operation, type }

/-- A schema declaration behind its keyword. -/
def schemaBlock (description : Option StringLiteral) : Parser SchemaBlock := do
  let directives ← constantDirectives
  let operations ← someBetween .openBrace rootOperation .closeBrace
  pure { description, directives, operations }

/-- A place where a directive may stand. -/
def directiveLocation : Parser DirectiveLocation := do
  let (token, offset) ← current
  match DirectiveLocation.ofKeyword? (← name) with
  | some location => pure location
  | none => throw (.unexpected token, offset)

/-- The definition of a directive behind its keyword. -/
def directiveDefinition (description : Option StringLiteral) : Parser DirectiveDefinition := do
  expect .atSign
  let name ← name
  let arguments ← argumentDefinitions
  let repeatable ← skipWord "repeatable"
  expectWord "on"
  let locations ← separated .bar directiveLocation
  pure { description, name, arguments, repeatable, locations }

/-! ## Extensions -/

/-- Whether an extension of a type adds anything to it. -/
def addsToType : TypeDefinition → Bool
  | .scalar s => !s.directives.isEmpty
  | .block b => !b.interfaces.isEmpty || !b.directives.isEmpty || !b.members.isEmpty
  | .union u => !u.directives.isEmpty || !u.types.isEmpty

/-- An extension of the schema behind its keywords. -/
def schemaExtension : Parser Definition := do
  let directives ← constantDirectives
  let operations ← optionalBetween .openBrace rootOperation .closeBrace
  if directives.isEmpty && operations.isEmpty then unexpected
  else pure (.extendSchema { description := none, directives, operations })

/-- An extension of a type behind its keywords. -/
def typeExtension (definition : Parser TypeDefinition) : Parser Definition := do
  let type ← definition
  if addsToType type then pure (.extendType type) else unexpected

/-- An extension. -/
def extension : Parser Definition := do
  let (token, offset) ← following
  match token with
  | .name word =>
      if word = "schema" then
        advance
        advance
        schemaExtension
      else match typeDefinition? word with
        | some definition =>
            advance
            advance
            typeExtension (definition none)
        | none => throw (.unexpected token, offset)
  | _ => throw (.unexpected token, offset)

/-! ## Operations and fragments -/

/-- The name of a fragment; the word that introduces a type condition is refused, be it
    a name or a string. -/
def fragmentName : Parser Text := do
  if (← current).1.value? = some ("on" : Text) then unexpected else name

/-- A field of a set of selections, given how to read values and inner sets. -/
def selectedField (value : Parser Value) (selections : Parser (List Selection)) :
    Parser Selection := do
  let first ← name
  let second ← if ← skip .colon then some <$> name else pure none
  let arguments ← arguments value
  let directives ← directives value
  let inner ← if (← current).1 = .punctuator .openBrace then selections else pure []
  match second with
  | none => pure (.field none first arguments directives inner)
  | some name => pure (.field (some first) name arguments directives inner)

/-- A fragment in a set of selections behind its dots: a name, or a set of its own. -/
def selectedFragment (value : Parser Value) (selections : Parser (List Selection)) :
    Parser Selection := do
  let conditional ← skipWord "on"
  match conditional, (← current).1 with
  | false, .name _ =>
      let name ← fragmentName
      pure (.spread name (← directives value))
  | _, _ =>
      let typeCondition ← if conditional then some <$> name else pure none
      let directives ← directives value
      pure (.inline typeCondition directives (← selections))

/-- A set of selections that opens at most as many sets, lists and objects as the depth
    allows. -/
def selectionsWithin : Nat → Parser (List Selection)
  | 0 => failHere fun _ => .nestedTooDeeply
  | depth + 1 =>
      someBetween .openBrace
        (do
          if ← skip .spread then
            selectedFragment (valueWithin false depth) (selectionsWithin depth)
          else selectedField (valueWithin false depth) (selectionsWithin depth))
        .closeBrace

/-- A set of selections. -/
def selections : Parser (List Selection) :=
  selectionsWithin maximalDepth

/-- The definition of a variable. -/
def variableDefinition : Parser VariableDefinition := do
  let description ← description
  expect .dollar
  let name ← name
  expect .colon
  let type ← typeRef
  let defaultValue ← defaultValue
  let directives ← constantDirectives
  pure { description, name, type, defaultValue, directives }

/-- A set of selections that stands for a query. -/
def shorthandQuery : Parser Operation := do
  let selections ← selections
  pure
    { description := none, kind := .query, name := none, variableDefinitions := [],
      directives := [], selections }

/-- An operation behind its description. -/
def operation (description : Option StringLiteral) : Parser Operation := do
  let kind ← operationKind
  let name ← match (← current).1 with
    | .name _ => some <$> name
    | _ => pure none
  let variableDefinitions ← optionalBetween .openParen variableDefinition .closeParen
  let directives ← directives (valueWithin false maximalDepth)
  let selections ← selections
  pure { description, kind, name, variableDefinitions, directives, selections }

/-- A fragment behind its keyword. -/
def fragment (description : Option StringLiteral) : Parser Fragment := do
  let fragmentName ← fragmentName
  expectWord "on"
  let typeCondition ← name
  let directives ← directives (valueWithin false maximalDepth)
  let selections ← selections
  pure { description, name := fragmentName, typeCondition, directives, selections }

/-! ## Documents -/

/-- How to go on behind the description of a definition that opens with the given
    word. -/
def describedDefinition? (word : Text) : Option (Option StringLiteral → Parser Definition) :=
  if word = "schema" then
    some fun description => do
      advance
      pure (.schema (← schemaBlock description))
  else if word = "directive" then
    some fun description => do
      advance
      pure (.directive (← directiveDefinition description))
  else if word = "fragment" then
    some fun description => do
      advance
      pure (.fragment (← fragment description))
  else if (OperationKind.ofKeyword? word).isSome then
    some fun description => do pure (.operation (← operation description))
  else (typeDefinition? word).map fun definition description => do
    advance
    pure (.type (← definition description))

/-- Whether a token is a string in either spelling. -/
def isString : Token → Bool
  | .string _ => true
  | .blockString _ => true
  | _ => false

/-- A definition. -/
def definition : Parser Definition := do
  let (first, start) ← current
  let described := isString first
  let (opening, offset) ← if described then following else pure (first, start)
  match opening with
  | .punctuator .openBrace =>
      if described then throw (.descriptionOnShorthand, start)
      else pure (.operation (← shorthandQuery))
  | .name word =>
      match describedDefinition? word with
      | some definition => definition (← description)
      | none =>
          if described then throw (.descriptionOnOther, start)
          else if word = "extend" then extension
          else throw (.unexpected opening, offset)
  | _ => throw (.unexpected opening, offset)

/-- Whether the end of the text is current. -/
def atEnd : Parser Bool := do
  pure ((← current).1 = .endOfText)

/-- One or more items up to the end of a text. -/
def whole (item : Parser α) (source : Text) : Except SyntaxError (List α) :=
  match someUntil atEnd item (Lexer.lexemes source) with
  | .ok (items, _) => .ok items
  | .error (fault, offset) => .error { fault, source, offset }

/-- An item with the offsets where its first lexeme starts and its last one stops. -/
def spanned (item : Parser α) : Parser (α × Nat × Nat) := fun lexemes => do
  let (value, rest) ← item lexemes
  let taken := lexemes.take (lexemes.length - rest.length)
  let start := (taken.head?.map Lexeme.start).getD 0
  let stop := (taken.getLast?.map Lexeme.stop).getD start
  pure ((value, start, stop), rest)

end Parser

/-- Read a document from a text. -/
def Document.parse (source : Text) : Except SyntaxError Document :=
  (Parser.whole Parser.definition source).map fun definitions =>
    ⟨definitions.map .node, [source]⟩

/-- Read the definitions of a text with the offsets between which each of them stands. -/
def Document.parseSpans (source : Text) : Except SyntaxError (List (Definition × Nat × Nat)) :=
  Parser.whole (Parser.spanned Parser.definition) source

end SchemaStitch

import Mathlib.Algebra.GroupWithZero.Nat
import SchemaStitch.Document.Tokens
import SchemaStitch.Proofs.Spelling.Definition

/-! # Number signs in print

    A number sign opens a comment, unless it stands in a string.  What is printed has just the
    number signs that the strings of its tokens have (`Definition.signs_print`): separators,
    words and layout bring in none.  This is shown printer by printer, each time by counting part
    by part. -/

namespace SchemaStitch

/-! ## Counting -/

/-- How many number signs a text has. -/
def Text.signs (text : Text) : Nat :=
  text.count '#'

/-- How many number signs the value of a token has. -/
def Token.signs (token : Token) : Nat :=
  (token.value?.getD []).signs

/-- How many number signs the values of tokens have. -/
def signsOf (tokens : List Token) : Nat :=
  (tokens.map Token.signs).sum

namespace Text

@[simp] theorem signs_nil : signs [] = 0 := rfl

/-- Number signs are counted part by part. -/
@[simp] theorem signs_append (first second : Text) :
    (first ++ second).signs = first.signs + second.signs :=
  List.count_append

@[simp] theorem signs_cons_of_ne {c : Char} (h : c ≠ '#') (text : Text) :
    signs (c :: text) = text.signs :=
  List.count_cons_of_ne h

/-- Without a number sign there is nothing to count. -/
theorem signs_of_notMem {text : Text} (h : '#' ∉ text) : text.signs = 0 :=
  List.count_eq_zero_of_not_mem h

variable {separator before after : Text}

/-- Separators without number signs bring in none. -/
theorem signs_join (h : separator.signs = 0) (parts : List Text) :
    (join separator parts).signs = (parts.map signs).sum := by
  induction parts with
  | nil => rfl
  | cons part rest ih =>
      cases rest with
      | nil => simp [join]
      | cons next others =>
          rw [join_cons (List.cons_ne_nil _ _), signs_append, signs_append, ih, h, Nat.zero_add]
          rfl

/-- Joining parts with a separator that holds no number sign adds none. -/
theorem signs_joinPresent (h : separator.signs = 0) (parts : List Text) :
    (joinPresent separator parts).signs = (parts.map signs).sum := by
  rw [joinPresent, signs_join h]
  induction parts with
  | nil => rfl
  | cons part rest ih =>
      cases part with
      | nil =>
          rw [List.filter_cons_of_neg (by simp), ih, List.map_cons, List.sum_cons]
          exact (Nat.zero_add _).symm
      | cons c cs =>
          rw [List.filter_cons_of_pos (by simp), List.map_cons, List.sum_cons, ih, List.map_cons,
            List.sum_cons]

/-- Enclosing a part in texts without number signs adds none. -/
theorem signs_enclose (hb : before.signs = 0) (ha : after.signs = 0) (part : Text) :
    (enclose before part after).signs = part.signs := by
  rw [enclose]
  cases part with
  | nil => rfl
  | cons c cs =>
      show (before ++ (c :: cs) ++ after).signs = _
      rw [signs_append, signs_append, hb, ha, Nat.zero_add, Nat.add_zero]

/-- Indenting adds no number sign. -/
theorem signs_shift (width : Nat) (text : Text) : (shift width text).signs = text.signs := by
  induction text with
  | nil => rfl
  | cons c cs ih =>
      by_cases hc : c = '\n'
      · have hblanks : signs (List.replicate width ' ') = 0 :=
          signs_of_notMem fun h => absurd (List.eq_of_mem_replicate h) (by decide)
        rw [hc, shift_newline, signs_cons_of_ne (by decide), signs_append, hblanks, ih,
          Nat.zero_add, signs_cons_of_ne (by decide)]
      · rw [shift_cons hc]
        show signs ([c] ++ shift width cs) = signs ([c] ++ cs)
        rw [signs_append, signs_append, ih]

/-- Indenting by two adds no number sign. -/
@[simp] theorem signs_indent (text : Text) : text.indent.signs = text.signs := by
  rw [indent, indentTail_eq_shift, signs_cons_of_ne (by decide), signs_cons_of_ne (by decide),
    signs_shift]

end Text

@[simp] theorem signsOf_nil : signsOf [] = 0 := rfl

@[simp] theorem signsOf_cons (token : Token) (tokens : List Token) :
    signsOf (token :: tokens) = token.signs + signsOf tokens :=
  List.sum_cons

/-- Number signs in tokens are counted part by part. -/
@[simp] theorem signsOf_append (tokens more : List Token) :
    signsOf (tokens ++ more) = signsOf tokens + signsOf more := by
  rw [signsOf, List.map_append, List.sum_append]
  rfl

@[simp] theorem signsOf_flatten (parts : List (List Token)) :
    signsOf parts.flatten = (parts.map signsOf).sum := by
  induction parts with
  | nil => rfl
  | cons part rest ih => rw [List.flatten_cons, signsOf_append, ih, List.map_cons, List.sum_cons]

@[simp] theorem signs_name (value : Text) : (Token.name value).signs = value.signs := rfl

@[simp] theorem signs_punctuator (p : Punctuator) : (Token.punctuator p).signs = 0 := rfl

/-- Brackets around parts add no number sign. -/
@[simp] theorem signsOf_encloseTokens (opening closing : Punctuator) (parts : List (List Token)) :
    signsOf (encloseTokens opening closing parts) = (parts.map signsOf).sum := by
  rw [encloseTokens]
  cases parts with
  | nil => rfl
  | cons part rest => simp

/-- Punctuators between parts add no number sign. -/
@[simp] theorem signsOf_separateTokens (p : Punctuator) (parts : List (List Token)) :
    signsOf (separateTokens (.punctuator p) parts) = (parts.map signsOf).sum := by
  induction parts with
  | nil => rfl
  | cons part rest ih =>
      cases rest with
      | nil => simp [separateTokens]
      | cons next others =>
          rw [separateTokens] at ih ⊢
          rw [List.intercalate_cons_cons, signsOf_append, signsOf_append, ih, signsOf_cons,
            signs_punctuator, signsOf_nil]
          simp

/-- Items are counted one by one. -/
theorem sum_signs_congr {α : Type} {print : α → Text} {tokens : α → List Token} {items : List α}
    (h : ∀ item ∈ items, (print item).signs = signsOf (tokens item)) :
    ((items.map print).map Text.signs).sum = ((items.map tokens).map signsOf).sum := by
  rw [List.map_map, List.map_map]
  exact congrArg _ (List.map_congr_left h)

/-! ## Strings -/

/-- A character written as an escape shows a number sign only if it is one. -/
theorem signs_escapeCharacter (c : Char) : (escapeCharacter c).signs = Text.signs [c] := by
  by_cases hsign : c = '#'
  · rw [hsign]
    decide
  · have hself : '#' ∉ [c] := by
      rw [List.mem_singleton]
      exact Ne.symm hsign
    have hescaped : '#' ∉ escapeCharacter c :=
      Lexer.notMem_escapeCharacter (by decide) (Ne.symm hsign)
    rw [Text.signs_of_notMem hself, Text.signs_of_notMem hescaped]

/-- A string shows the number signs of its value. -/
theorem signs_printString (value : Text) : (printString value).signs = value.signs := by
  have hbody : Text.signs (value.flatMap escapeCharacter) = value.signs := by
    induction value with
    | nil => rfl
    | cons c cs ih =>
        rw [List.flatMap_cons, Text.signs_append, signs_escapeCharacter, ih, ← Text.signs_append]
        rfl
  rw [printString, Text.signs_cons_of_ne (by decide), Text.signs_append, hbody]
  rfl

/-- A block string shows the number signs of its value, whatever frame and escapes it needs. -/
theorem BlockString.signs_escape_framed (value : Text) :
    (escape (framed value)).signs = value.signs := by
  have hbreak (b : Bool) : Text.signs (if b then ['\n'] else []) = 0 := by
    cases b <;> rfl
  rw [Text.signs, count_escape (by decide), ← Text.signs, framed, Text.signs_append,
    Text.signs_append, leadingBreak, trailingBreak, hbreak, hbreak, Nat.zero_add, Nat.add_zero]

/-- A string of either form shows the number signs of its token. -/
theorem StringLiteral.signs_print (literal : StringLiteral) :
    literal.print.signs = literal.token.signs := by
  obtain ⟨value, isBlock⟩ := literal
  cases isBlock with
  | false => exact signs_printString value
  | true =>
      show (BlockString.print value).signs = value.signs
      have hquote : '"' ≠ '#' := by decide
      rw [BlockString.print_eq_framed, Text.signs_cons_of_ne hquote, Text.signs_cons_of_ne hquote,
        Text.signs_cons_of_ne hquote, Text.signs_append, BlockString.signs_escape_framed]
      rfl

/-- A description shows the number signs of its tokens. -/
theorem signs_description (description : Option StringLiteral) :
    (printDescription description).signs = signsOf (descriptionTokens description) := by
  cases description with
  | none => rfl
  | some literal =>
      show Text.signs (literal.print ++ "\n") = signsOf [literal.token]
      rw [Text.signs_append, literal.signs_print]
      rfl

/-! ## Types and values -/

/-- A type shows the number signs of its tokens. -/
theorem TypeRef.signs_print (type : TypeRef) : type.print.signs = signsOf type.tokens := by
  have hrequired (required : Bool) :
      Text.signs (if required then ['!'] else []) = signsOf (requiredTokens required) := by
    cases required <;> rfl
  induction type with
  | named name required => simp [print, tokens, hrequired]
  | list item required ih =>
      simp (disch := decide) [print, tokens, hrequired, ih]

mutual

/-- A value shows the number signs of its tokens; the induction goes through the items of lists
    and the fields of objects. -/
theorem Value.signs_print : (value : Value) → value.print.signs = signsOf value.tokens
  | .variableRef name => by simp (disch := decide) [Value.print, Value.tokens]
  | .int digits => by simp [Value.print, Value.tokens, Token.signs, Token.value?]
  | .float digits => by simp [Value.print, Value.tokens, Token.signs, Token.value?]
  | .string literal => by simp [Value.print, Value.tokens, literal.signs_print]
  | .boolean true => rfl
  | .boolean false => rfl
  | .null => rfl
  | .enum name => by simp [Value.print, Value.tokens]
  | .list items => by
      have hitems := Value.signs_printItems items
      simp (disch := decide) [Value.print, Value.tokens, Text.signs_join, hitems]
  | .object fields => by
      have hfields := Value.signs_printFields fields
      simp (disch := decide) [Value.print, Value.tokens, Text.signs_join, hfields]

theorem Value.signs_printItems : (items : List Value) →
    ((Value.printItems items).map Text.signs).sum = signsOf (Value.itemTokens items)
  | [] => rfl
  | item :: rest => by
      rw [Value.printItems, Value.itemTokens, List.map_cons, List.sum_cons, signsOf_append,
        Value.signs_print item, Value.signs_printItems rest]

theorem Value.signs_printFields : (fields : List (Text × Value)) →
    ((Value.printFields fields).map Text.signs).sum = signsOf (Value.fieldTokens fields)
  | [] => rfl
  | (name, value) :: rest => by
      have hvalue := Value.signs_print value
      have hrest := Value.signs_printFields rest
      simp (disch := decide) [Value.printFields, Value.fieldTokens, hvalue, hrest, Nat.add_assoc]

end

/-- An argument shows the number signs of its tokens. -/
theorem Argument.signs_print (argument : Argument) :
    argument.print.signs = signsOf argument.tokens := by
  simp (disch := decide) [print, tokens, Value.signs_print]

/-- Arguments in their brackets show the number signs of their tokens. -/
theorem signs_arguments (arguments : List Argument) :
    (printArguments arguments).signs = signsOf (argumentTokens arguments) := by
  have hall := sum_signs_congr fun argument (_ : argument ∈ arguments) => argument.signs_print
  rw [printArguments, Text.signs_enclose (by decide) (by decide), Text.signs_join (by decide), hall,
    argumentTokens, signsOf_encloseTokens]

/-- A directive shows the number signs of its tokens. -/
theorem Directive.signs_print (directive : Directive) :
    directive.print.signs = signsOf directive.tokens := by
  simp (disch := decide) [print, tokens, signs_arguments]

theorem signs_directives (directives : List Directive) :
    (printDirectives directives).signs = signsOf (directiveTokens directives) := by
  have hall := sum_signs_congr fun directive (_ : directive ∈ directives) => directive.signs_print
  rw [printDirectives, Text.signs_join (by decide), hall, directiveTokens, List.flatMap_def,
    signsOf_flatten]

/-- A default value shows the number signs of its tokens. -/
theorem signs_default (value : Option Value) :
    (printDefault value).signs = signsOf (defaultTokens value) := by
  cases value with
  | none => rfl
  | some value => simp (disch := decide) [printDefault, defaultTokens, Value.signs_print]

/-- A block in braces shows the number signs of its items. -/
theorem signs_printBlock (items : List Text) :
    (printBlock items).signs = (items.map Text.signs).sum := by
  rw [printBlock]
  cases items with
  | nil => rfl
  | cons item rest => simp (disch := decide) [Text.signs_join]

/-! ## Members -/

/-- An argument definition or input field shows the number signs of its tokens. -/
theorem InputValue.signs_print (input : InputValue) :
    input.print.signs = signsOf input.tokens := by
  simp (disch := decide) [print, tokens, leadingTokens, signs_description, Text.signs_joinPresent,
    TypeRef.signs_print, signs_default, signs_directives, Nat.add_assoc]

/-- Argument definitions show the number signs of their tokens, on one line or on several. -/
theorem signs_argumentDefinitions (arguments : List InputValue) :
    (printArgumentDefinitions arguments).signs = signsOf (argumentDefinitionTokens arguments) := by
  have hall := sum_signs_congr fun argument (_ : argument ∈ arguments) => argument.signs_print
  rw [printArgumentDefinitions, argumentDefinitionTokens, signsOf_encloseTokens, ← hall]
  -- the parentheses may stand on lines of their own
  split
  · simp (disch := decide) [Text.signs_join]
  · rw [Text.signs_enclose (by decide) (by decide), Text.signs_join (by decide)]

/-- A field shows the number signs of its tokens. -/
theorem Field.signs_print (field : Field) : field.print.signs = signsOf field.tokens := by
  simp (disch := decide) [print, tokens, leadingTokens, signs_description,
    signs_argumentDefinitions, TypeRef.signs_print, Text.signs_enclose, signs_directives]

theorem EnumValue.signs_print (value : EnumValue) : value.print.signs = signsOf value.tokens := by
  simp (disch := decide) [print, tokens, leadingTokens, signs_description, Text.signs_joinPresent,
    signs_directives]

/-- A member of any kind shows the number signs of its tokens. -/
theorem Member.signs_print (member : Member) : member.print.signs = signsOf member.tokens := by
  cases member with
  | field f => exact f.signs_print
  | input i => exact i.signs_print
  | value v => exact v.signs_print

/-! ## Type definitions, schema declarations and directives -/

/-- Names with a separator between them. -/
theorem signs_names {separator : Text} (h : separator.signs = 0) (p : Punctuator)
    (names : List Text) : (Text.join separator names).signs
      = signsOf (separateTokens (.punctuator p) (names.map fun name => [.name name])) := by
  rw [Text.signs_join h, signsOf_separateTokens, List.map_map]
  refine congrArg _ (List.map_congr_left fun name _ => ?_)
  simp

/-- Interfaces show the number signs of their tokens. -/
theorem signs_interfaces (interfaces : List Text) :
    (Text.enclose "implements " (Text.join " & " interfaces) []).signs
      = signsOf (interfaceTokens interfaces) := by
  rw [Text.signs_enclose (by decide) rfl, signs_names (by decide) .ampersand, interfaceTokens]
  cases interfaces with
  | nil => rfl
  | cons name rest => exact (Nat.zero_add _).symm

/-- The header of a type with members shows the number signs of its tokens. -/
theorem Block.signs_header (block : Block) :
    (Text.joinPresent " " block.header).signs = signsOf block.headerTokens := by
  rw [Text.signs_joinPresent (by decide), header, headerTokens]
  simp only [List.map_cons, List.map_nil, List.sum_cons, List.sum_nil, signs_interfaces,
    signs_directives, signsOf_append, signsOf_cons, signs_name, Nat.add_assoc, Nat.add_zero]

/-- A type without its members shows the number signs of its header. -/
theorem Block.signs_printBare (block : Block) :
    block.printBare.signs = signsOf (TypeDefinition.block block).bareTokens := by
  have hmembers := sum_signs_congr fun member (_ : member ∈ Entry.nodes block.members) =>
    member.signs_print
  have hheader := block.signs_header
  rw [Text.signs_joinPresent (by decide)] at hheader
  rw [printBare, Text.signs_joinPresent (by decide), List.map_append, List.sum_append, hheader,
    TypeDefinition.bareTokens, signsOf_append, signsOf_encloseTokens, ← hmembers, List.map_singleton,
    List.sum_singleton, signs_printBlock]

/-- A type of any kind without its members shows the number signs of its header. -/
theorem TypeDefinition.signs_printBare (type : TypeDefinition) :
    type.printBare.signs = signsOf type.bareTokens := by
  cases type with
  | scalar s =>
      simp (disch := decide) [printBare, ScalarType.printBare, bareTokens, wordToken,
        Text.signs_joinPresent, signs_directives]
  | block b => exact b.signs_printBare
  | union u =>
      have htypes : (Text.enclose "= " (Text.join " | " u.types) []).signs
          = signsOf (if u.types.isEmpty then [] else .punctuator .equals
            :: separateTokens (.punctuator .bar) (u.types.map fun name => [.name name])) := by
        rw [Text.signs_enclose (by decide) rfl, signs_names (by decide) .bar]
        cases u.types with
        | nil => rfl
        | cons name rest => exact (Nat.zero_add _).symm
      rw [printBare, UnionType.printBare, Text.signs_joinPresent (by decide), bareTokens,
        signsOf_append, ← htypes]
      simp only [List.map_cons, List.map_nil, List.sum_cons, List.sum_nil, signs_directives,
        signsOf_cons, wordToken, signs_name, Nat.add_assoc, Nat.add_zero]

theorem RootOperation.signs_print (root : RootOperation) :
    root.print.signs = signsOf root.tokens := by
  simp (disch := decide) [print, tokens]

/-- A schema declaration without its description shows the number signs of its tokens. -/
theorem SchemaBlock.signs_printBare (schema : SchemaBlock) :
    schema.printBare.signs = signsOf schema.bareTokens := by
  have hroots := sum_signs_congr fun root (_ : root ∈ schema.operations) => root.signs_print
  rw [printBare, Text.signs_joinPresent (by decide), bareTokens, signsOf_append,
    signsOf_encloseTokens, ← hroots]
  simp only [List.map_cons, List.map_nil, List.sum_cons, List.sum_nil, signs_printBlock,
    signs_directives, signsOf_cons, wordToken, signs_name, Nat.add_assoc, Nat.add_zero]

/-- The definition of a directive shows the number signs of its tokens. -/
theorem DirectiveDefinition.signs_print (directive : DirectiveDefinition) :
    directive.print.signs = signsOf (Definition.directive directive).tokens := by
  have hplaces : (Text.join " | " (directive.locations.map DirectiveLocation.keyword)).signs
      = signsOf (separateTokens (.punctuator .bar)
        (directive.locations.map fun location => [.name location.keyword])) := by
    rw [signs_names (by decide) .bar, List.map_map]
    rfl
  have hrepeatable : Text.signs (if directive.repeatable then " repeatable" else [])
      = signsOf (if directive.repeatable then [wordToken "repeatable"] else []) := by
    cases directive.repeatable <;> rfl
  have hopening : Text.signs "directive @" = 0 := by decide
  have hon : Text.signs " on " = 0 := by decide
  have hword : (Token.name "directive").signs = 0 := by decide
  have hwordOn : (Token.name "on").signs = 0 := by decide
  rw [print, Definition.tokens, bareTokens]
  simp only [Text.signs_append, signs_description, signs_argumentDefinitions, hplaces, hrepeatable,
    hopening, hon, signsOf_append, signsOf_cons, wordToken, hword, hwordOn, signs_punctuator,
    signs_name, Nat.add_assoc, Nat.zero_add]

/-! ## Operations and fragments -/

theorem signs_label (responseName : Option Text) (name : Text) :
    (printLabel responseName name).signs = signsOf (tokensOfLabel responseName name) := by
  cases responseName with
  | none => simp [printLabel, tokensOfLabel]
  | some label => simp (disch := decide) [printLabel, tokensOfLabel]

/-- A selected field with its label and arguments shows the number signs of their tokens. -/
theorem signs_fieldCall (responseName : Option Text) (name : Text) (arguments : List Argument) :
    (printFieldCall responseName name arguments).signs
      = signsOf (tokensOfLabel responseName name) + signsOf (argumentTokens arguments) := by
  have hall := signs_arguments arguments
  rw [printArguments, Text.signs_enclose (by decide) (by decide), Text.signs_join (by decide)]
    at hall
  rw [printFieldCall_eq]
  split
  · have hrows : Text.signs (if arguments.isEmpty then []
        else (Text.join "\n" (arguments.map Argument.print)).indent)
        = signsOf (argumentTokens arguments) := by
      cases arguments with
      | nil => rfl
      | cons first rest =>
          rw [if_neg (by simp), Text.signs_indent, Text.signs_join (by decide), hall]
    rw [Text.signs_append, signs_label, Text.signs_enclose (by decide) (by decide), hrows]
  · rw [Text.signs_append, signs_label, signs_arguments]

theorem signs_condition (typeCondition : Option Text) :
    (printCondition typeCondition).signs = signsOf (tokensOfCondition typeCondition) := by
  cases typeCondition with
  | none => rfl
  | some name =>
      show Text.signs ("on " ++ name) = signsOf [wordToken "on", .name name]
      rw [Text.signs_append]
      rfl

mutual

/-- A selection shows the number signs of its tokens; the induction goes through the selections
    below it. -/
theorem Selection.signs_print : (selection : Selection) →
    selection.print.signs = signsOf selection.tokens
  | .field responseName name arguments directives selections => by
      have hselections := Selection.signs_printAll selections
      rw [Selection.tokensOfAll_eq_map] at hselections
      rw [Selection.tokens_field, Selection.print, Text.signs_joinPresent (by decide)]
      simp only [List.map_cons, List.map_nil, List.sum_cons, List.sum_nil, signs_fieldCall,
        signs_directives, signs_printBlock, hselections, signsOf_append, signsOf_encloseTokens,
        Nat.add_assoc, Nat.add_zero]
  | .spread name directives => by
      simp (disch := decide) [Selection.print, Selection.tokens, Text.signs_enclose,
        signs_directives]
  | .inline typeCondition directives selections => by
      have hselections := Selection.signs_printAll selections
      have hdots : Text.signs "..." = 0 := by decide
      rw [Selection.tokensOfAll_eq_map, Selection.printAll_eq_map] at hselections
      rw [Selection.tokens_inline, Selection.print_inline, Text.signs_joinPresent (by decide)]
      simp only [List.map_cons, List.map_nil, List.sum_cons, List.sum_nil, hdots, signs_condition,
        signs_directives, signs_printBlock, hselections, signsOf_append, signsOf_cons,
        signs_punctuator, signsOf_encloseTokens, Nat.add_assoc, Nat.add_zero, Nat.zero_add]

theorem Selection.signs_printAll : (selections : List Selection) →
    ((Selection.printAll selections).map Text.signs).sum
      = ((Selection.tokensOfAll selections).map signsOf).sum
  | [] => rfl
  | selection :: rest => by
      rw [Selection.printAll, Selection.tokensOfAll, List.map_cons, List.sum_cons, List.map_cons,
        List.sum_cons, Selection.signs_print selection, Selection.signs_printAll rest]

end

/-- Selections in braces show the number signs of their tokens. -/
theorem signs_selectionSet (selections : List Selection) :
    (printBlock (Selection.printAll selections)).signs
      = signsOf (selectionSetTokens selections) := by
  rw [signs_printBlock, Selection.signs_printAll, selectionSetTokens, signsOf_encloseTokens]

/-- The definition of a variable shows the number signs of its tokens. -/
theorem VariableDefinition.signs_print (definition : VariableDefinition) :
    definition.print.signs = signsOf definition.tokens := by
  simp (disch := decide) [print, tokens, signs_description, TypeRef.signs_print,
    Text.signs_enclose, signs_default, signs_directives]

theorem signs_variables (definitions : List VariableDefinition) :
    (printVariables definitions).signs = signsOf (encloseTokens .openParen .closeParen
      (definitions.map VariableDefinition.tokens)) := by
  have hall := sum_signs_congr fun definition (_ : definition ∈ definitions) =>
    definition.signs_print
  rw [printVariables, signsOf_encloseTokens, ← hall]
  split
  · simp (disch := decide) [Text.signs_join]
  · rw [Text.signs_enclose (by decide) (by decide), Text.signs_join (by decide)]

/-- The head of an operation shows the number signs of its description and its words. -/
theorem Operation.signs_printHead (operation : Operation) :
    operation.printHead.signs = signsOf (descriptionTokens operation.description)
      + signsOf operation.headTokens := by
  have hkeyword : operation.kind.keyword.signs = 0 := by
    cases operation.kind <;> decide
  have hname : Text.signs (operation.name.getD [])
      = signsOf (operation.name.toList.map Token.name) := by
    cases operation.name with
    | none => rfl
    | some name => simp
  rw [printHead, Text.signs_append, signs_description, Text.signs_joinPresent (by decide), headTokens]
  simp only [List.map_cons, List.map_nil, List.sum_cons, List.sum_nil, hkeyword, Text.signs_append,
    hname, signs_variables, signs_directives, signsOf_append, Nat.add_assoc, Nat.add_zero,
    Nat.zero_add]

/-- An operation shows the number signs of its tokens, in the short form too. -/
theorem Operation.signs_print (operation : Operation) :
    operation.print.signs = signsOf operation.tokens := by
  -- the word of a query may be left out on both sides; it has no number sign
  have hhead : Text.signs (if operation.printHead = "query" then []
      else operation.printHead ++ [' ']) = operation.printHead.signs := by
    split
    · next hquery =>
        rw [hquery]
        decide
    · rw [Text.signs_append]
      rfl
  have hword : signsOf (if operation.isShorthand then [] else [.name operation.kind.keyword])
      = 0 := by
    split
    · rfl
    · cases operation.kind <;> decide
  rw [print_eq, tokens_eq, Text.signs_append, hhead, signs_printHead, signs_selectionSet,
    signsOf_append, signsOf_append, signsOf_append, hword, Nat.add_zero]

/-- A fragment shows the number signs of its tokens. -/
theorem Fragment.signs_print (fragment : Fragment) :
    fragment.print.signs = signsOf fragment.tokens := by
  have hfragment : Text.signs "fragment " = 0 := by decide
  have hon : Text.signs " on " = 0 := by decide
  have hblank : Text.signs " " = 0 := by decide
  have hword : (Token.name "fragment").signs = 0 := by decide
  have hwordOn : (Token.name "on").signs = 0 := by decide
  rw [print, tokens]
  simp only [Text.signs_append, signs_description, hfragment, hon, hblank,
    Text.signs_enclose Text.signs_nil hblank, signs_directives, signs_selectionSet, signsOf_append,
    signsOf_cons, wordToken, hword, hwordOn, signs_name, Nat.add_assoc, Nat.zero_add]

/-! ## Definitions -/

/-- The word of an extension has no number sign. -/
theorem signs_extend {text : Text} {tokens : List Token} (h : text.signs = signsOf tokens) :
    Text.signs ("extend " ++ text) = signsOf (wordToken "extend" :: tokens) := by
  have hextend : Text.signs "extend " = 0 := by decide
  have hword : (wordToken "extend").signs = 0 := by decide
  rw [Text.signs_append, hextend, signsOf_cons, hword, h]

/-- A definition is printed with the number signs of its strings and no others. -/
theorem Definition.signs_print (d : Definition) : d.print.signs = signsOf d.tokens := by
  cases d with
  | schema s =>
      show s.print.signs = signsOf (descriptionTokens s.description ++ s.bareTokens)
      rw [SchemaBlock.print, Text.signs_append, signs_description, s.signs_printBare,
        signsOf_append]
  | type t =>
      show (printDescription t.description ++ t.printBare).signs
        = signsOf (descriptionTokens t.description ++ t.bareTokens)
      rw [Text.signs_append, signs_description, t.signs_printBare, signsOf_append]
  | directive d => exact d.signs_print
  | extendSchema s => exact signs_extend s.signs_printBare
  | extendType t => exact signs_extend t.signs_printBare
  | operation o => exact o.signs_print
  | fragment f => exact f.signs_print

end SchemaStitch

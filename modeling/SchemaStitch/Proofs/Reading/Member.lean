import SchemaStitch.Proofs.Reading

/-! # Types, values and members are read back

    A well-formed node is read from its tokens, if nothing behind them goes on with it.
    Values and braces end by themselves; a type goes on with an exclamation mark, and a
    list of directives with an at sign or a parenthesis. -/

namespace SchemaStitch.Parser

/-- The punctuators that go on with what stands before them. -/
def continuing : List Punctuator :=
  [.bang, .ampersand, .openParen, .colon, .equals, .atSign, .bar]

/-- A token that goes on with nothing before it. -/
def IsFresh (t : Token) : Prop :=
  ∀ p ∈ continuing, t ≠ .punctuator p

theorem isFresh_name (value : Text) : IsFresh (.name value) := by
  intro p _ h
  cases h

/-- A string is no punctuator. -/
theorem token_ne_punctuator (literal : StringLiteral) (p : Punctuator) :
    literal.token ≠ .punctuator p := by
  rw [StringLiteral.token]
  split <;> exact fun h => by cases h

theorem isFresh_string (literal : StringLiteral) : IsFresh literal.token :=
  fun p _ => token_ne_punctuator literal p

theorem isFresh_punctuator {p : Punctuator} (h : p ∉ continuing) : IsFresh (.punctuator p) := by
  intro q hq heq
  rw [Token.punctuator.inj heq] at h
  exact h hq

/-! ## Types -/

/-- An exclamation mark is read if it is there. -/
theorem reads_required (required : Bool) :
    Reads (skip .bang) (requiredTokens required) required (fun t => t ≠ .punctuator .bang) := by
  cases required with
  | false => exact reads_skip_false .bang
  | true => exact (reads_skip .bang).mono fun _ _ => trivial

/-- A type by its name is read from its tokens. -/
theorem reads_namedType (name : Text) (required : Bool) :
    Reads namedType (TypeRef.named name required).tokens (.named name required)
      (fun t => t ≠ .punctuator .bang) :=
  (reads_name name).bind (reads_required required).map fun _ _ => trivial

/-- A type is read from its tokens if it is not too deep. -/
theorem reads_typeRefWithin {type : TypeRef} {depth : Nat} (h : type.depth ≤ depth) :
    Reads (typeRefWithin depth) type.tokens type (fun t => t ≠ .punctuator .bang) := by
  induction type generalizing depth with
  | named name required =>
      have hnamed := reads_namedType name required
      have hname : ∀ t, Opens (TypeRef.named name required).tokens
          (fun t => t ≠ .punctuator .bang) t → t ≠ .punctuator .openBracket :=
        opens_cons fun h => by cases h
      cases depth with
      | zero => exact (reads_skip_false .openBracket).bind (.ite_neg Bool.false_ne_true hnamed) hname
      | succ depth =>
          exact (reads_skip_false .openBracket).bind (.ite_neg Bool.false_ne_true hnamed) hname
  | list item required ih =>
      rw [TypeRef.depth] at h
      obtain ⟨depth, rfl⟩ : ∃ n, depth = n + 1 := ⟨depth - 1, by omega⟩
      have hitem := ih (show item.depth ≤ depth by omega)
      have hclose := (reads_expect .closeBracket).bind (f := fun _ => do
        pure (TypeRef.list item (← skip .bang))) (reads_required required).map fun _ _ => trivial
      have hbody := hitem.bind (f := fun item => do
        expect .closeBracket
        pure (TypeRef.list item (← skip .bang))) hclose (opens_cons (by decide))
      exact (reads_skip .openBracket).bind (.ite_pos rfl hbody) fun _ _ => trivial

/-- A type is read from its tokens. -/
theorem reads_typeRef {type : TypeRef} (h : type.WellFormed) :
    Reads typeRef type.tokens type (fun t => t ≠ .punctuator .bang) :=
  reads_typeRefWithin h.depth

/-! ## Values -/

/-- A name that is not reserved is read as a value of an enum. -/
theorem valueOfName_eq {name : Text} (h : isReservedValue name = false) :
    valueOfName name = .enum name := by
  simp only [isReservedValue, Bool.or_eq_false_iff, decide_eq_false_iff_not] at h
  rw [valueOfName, if_neg h.1.1, if_neg h.1.2, if_neg h.2]

/-- A value of one token is read by passing over it. -/
theorem reads_leaf (t : Token) (value : Value) :
    Reads (do advance; pure value) [t] value Anything :=
  .advance_bind (.pure value _)

/-- A value never starts with a closing bracket or brace. -/
theorem starts_value (value : Value) :
    Starts value.tokens fun t => t ≠ .punctuator .closeBracket ∧ Anything t := by
  have hstart : ∀ {t : Token} {others : List Token}, t ≠ .punctuator .closeBracket →
      Starts (t :: others) fun t => t ≠ .punctuator .closeBracket ∧ Anything t :=
    fun h => ⟨_, _, rfl, h, trivial⟩
  cases value with
  | variableRef name => rw [Value.tokens]; exact hstart (by decide)
  | int digits => rw [Value.tokens]; exact hstart (fun h => by cases h)
  | float digits => rw [Value.tokens]; exact hstart (fun h => by cases h)
  | string literal =>
      rw [Value.tokens, StringLiteral.token]
      split <;> exact hstart (fun h => by cases h)
  | boolean value => cases value <;> rw [Value.tokens] <;> exact hstart (fun h => by cases h)
  | null => rw [Value.tokens]; exact hstart (fun h => by cases h)
  | enum name => rw [Value.tokens]; exact hstart (fun h => by cases h)
  | list items => rw [Value.tokens]; exact hstart (by decide)
  | object fields => rw [Value.tokens]; exact hstart (by decide)

/-- A variable is read where the value need not be constant. -/
theorem reads_variableRef (name : Text) :
    Reads (variableRef false) [.punctuator .dollar, .name name] (.variableRef name) Anything := by
  have hname := (reads_name name).map (g := Value.variableRef)
  exact .current_cons fun _ => (reads_expect .dollar).bind hname fun _ _ => trivial

/-- Behind a label and its value, reading goes on with both. -/
theorem reads_labelled_bind {value : Parser Value} {name : Text} {v : Value} {β : Type} {b : β}
    {f : Text × Value → Parser β} (h : Reads value v.tokens v Anything)
    (hf : Reads (f (name, v)) [] b Anything) :
    Reads (labelled value >>= f) (.name name :: .punctuator .colon :: v.tokens) b Anything := by
  have hlabelled : Reads (labelled value) (.name name :: .punctuator .colon :: v.tokens) (name, v)
      Anything :=
    .name (.expect h.map)
  have hall := hlabelled.bind hf fun _ _ => trivial
  rwa [List.append_nil] at hall

/-- Values that hold no others are read alike at every depth. -/
theorem reads_of_valueWith {constant : Bool} {depth : Nat} {tokens : List Token} {value : Value}
    (h : ∀ list object, Reads (valueWith constant list object) tokens value Anything) :
    Reads (valueWithin constant depth) tokens value Anything := by
  cases depth with
  | zero => exact h _ _
  | succ depth => exact h _ _

/-- A value is read from its tokens if it is not too deep; the induction goes through the items of
    lists and the fields of objects. -/
theorem reads_valueWithin {constant : Bool} {depth : Nat} {value : Value}
    (h : value.WellFormed constant depth) :
    Reads (valueWithin constant depth) value.tokens value Anything := by
  -- by the form of the value; inside a list or object the depth that is left is one less
  induction h with
  | @variableRef depth name hc hn =>
      rw [Value.tokens, hc]
      exact reads_of_valueWith fun _ _ => .current_cons fun _ => reads_variableRef name
  | @int depth digits h =>
      rw [Value.tokens]
      exact reads_of_valueWith fun _ _ => .current_cons fun _ => reads_leaf _ _
  | @float depth digits h =>
      rw [Value.tokens]
      exact reads_of_valueWith fun _ _ => .current_cons fun _ => reads_leaf _ _
  | @string depth literal h =>
      obtain ⟨value, isBlock⟩ := literal
      rw [Value.tokens]
      cases isBlock with
      | false => exact reads_of_valueWith fun _ _ => .current_cons fun _ => reads_leaf _ _
      | true => exact reads_of_valueWith fun _ _ => .current_cons fun _ => reads_leaf _ _
  | @boolean depth value =>
      cases value with
      | false => exact reads_of_valueWith fun _ _ => .current_cons fun _ => reads_leaf _ _
      | true => exact reads_of_valueWith fun _ _ => .current_cons fun _ => reads_leaf _ _
  | @null depth => exact reads_of_valueWith fun _ _ => .current_cons fun _ => reads_leaf _ _
  | @enum depth name hn hr =>
      rw [Value.tokens, ← valueOfName_eq hr]
      exact reads_of_valueWith fun _ _ => .current_cons fun _ => reads_leaf _ _
  | @list depth items h ih =>
      have hrow : InRow (valueWithin constant depth) Value.tokens Anything .closeBracket items :=
        ⟨ih, fun item _ => starts_value item, trivial⟩
      rw [Value.tokens, Value.itemTokens_eq_flatten]
      exact .current_cons fun _ => (hrow.reads_between .openBracket).map
  | @object depth fields hn h ih =>
      have hrow : InRow (labelled (valueWithin constant depth)) labelledTokens Anything .closeBrace
          fields :=
        ⟨fun field hf => .name (.expect (ih field hf).map),
          fun field _ => ⟨_, _, rfl, fun h => (by cases h), trivial⟩, trivial⟩
      rw [Value.tokens, Value.fieldTokens_eq_flatten]
      exact .current_cons fun _ => (hrow.reads_between .openBrace).map

/-- A constant value is read from its tokens. -/
theorem reads_constantValue {value : Value} (h : value.WellFormed true maximalDepth) :
    Reads constantValue value.tokens value Anything :=
  reads_valueWithin h

/-- A default value behind an equals sign, or none. -/
theorem reads_defaultValue {value : Option Value}
    (h : ∀ v ∈ value, v.WellFormed true maximalDepth) :
    Reads defaultValue (defaultTokens value) value (fun t => t ≠ .punctuator .equals) := by
  cases value with
  | none =>
      exact (reads_skip_false .equals).bind (.ite_neg Bool.false_ne_true (.pure none _))
        fun _ ht => ht
  | some v =>
      exact (reads_skip .equals).bind (.ite_pos rfl (reads_constantValue (h v rfl)).map.relax)
        fun _ _ => trivial

/-! ## Arguments and directives -/

section

variable {constant : Bool} {depth : Nat}

/-- Arguments are in a row up to the closing bracket. -/
theorem inRow_arguments {arguments : List Argument}
    (h : ∀ argument ∈ arguments, argument.WellFormed constant depth) :
    InRow (do
      let (name, value) ← labelled (valueWithin constant depth)
      pure (⟨name, value⟩ : Argument)) Argument.tokens Anything .closeParen arguments := by
  refine ⟨?_, fun argument _ => ⟨_, _, rfl, fun h => (by cases h), trivial⟩, trivial⟩
  intro argument ha
  exact reads_labelled_bind (reads_valueWithin (h argument ha).value) (.pure _ _)

/-- Arguments are read from their tokens, if no bracket follows where there are none. -/
theorem reads_arguments {arguments : List Argument}
    (h : ∀ argument ∈ arguments, argument.WellFormed constant depth) :
    Reads (Parser.arguments (valueWithin constant depth)) (argumentTokens arguments) arguments
      (fun t => t ≠ .punctuator .openParen) :=
  ((inRow_arguments h).reads_optionalBetween .openParen).mono fun _ ht _ => ht

/-- Directives are read from their tokens, if neither another nor its arguments follow. -/
theorem reads_directives {directives : List Directive}
    (h : ∀ directive ∈ directives, directive.WellFormed constant depth) :
    Reads (Parser.directives (valueWithin constant depth)) (directiveTokens directives) directives
      (fun t => t ≠ .punctuator .atSign ∧ t ≠ .punctuator .openParen) := by
  have hdirective : ∀ directive ∈ directives, Reads
      (do
        let name ← name
        pure (⟨name, ← Parser.arguments (valueWithin constant depth)⟩ : Directive))
      (.name directive.name :: argumentTokens directive.arguments) directive
      (fun t => t ≠ .punctuator .openParen) :=
    fun directive hd => (reads_name directive.name).bind
      (reads_arguments (h directive hd).arguments).map fun _ _ => trivial
  exact reads_marked hdirective (fun _ _ => List.cons_ne_nil _ _) (by decide)

end

theorem reads_constantDirectives {directives : List Directive}
    (h : ∀ directive ∈ directives, directive.WellFormed true maximalDepth) :
    Reads constantDirectives (directiveTokens directives) directives
      (fun t => t ≠ .punctuator .atSign ∧ t ≠ .punctuator .openParen) :=
  reads_directives h

/-- What a list of directives starts with. -/
theorem opens_directives {directives : List Directive} {next property : Token → Prop}
    (ha : property (.punctuator .atSign)) (hn : ∀ t, next t → property t) :
    ∀ t, Opens (directiveTokens directives) next t → property t := by
  cases directives with
  | nil => exact hn
  | cons directive rest => exact opens_cons ha

/-! ## Members -/

/-- A description is read if there is one, and none if no string follows. -/
theorem reads_description (description : Option StringLiteral) :
    Reads Parser.description (descriptionTokens description) description
      (fun t => isString t = false) := by
  cases description with
  | none =>
      refine .current_nil fun t start ht => ?_
      cases t with
      | string value => cases ht
      | blockString value => cases ht
      | punctuator p => exact .pure none _
      | name value => exact .pure none _
      | int digits => exact .pure none _
      | float digits => exact .pure none _
      | endOfText => exact .pure none _
  | some literal =>
      obtain ⟨value, isBlock⟩ := literal
      cases isBlock with
      | false => exact .current_cons fun _ => .advance_bind (.pure _ _)
      | true => exact .current_cons fun _ => .advance_bind (.pure _ _)

/-- What starts with a description or a name. -/
theorem starts_described (description : Option StringLiteral) {t : Token} {tokens : List Token}
    {property : Token → Prop} (hs : ∀ literal : StringLiteral, property literal.token)
    (ht : property t) : Starts (descriptionTokens description ++ t :: tokens) property := by
  cases description with
  | none => exact ⟨t, tokens, rfl, ht⟩
  | some literal => exact ⟨literal.token, t :: tokens, rfl, hs literal⟩

theorem isString_name (value : Text) : isString (.name value) = false :=
  rfl

/-- A fresh token ends a list of directives. -/
theorem reads_freshDirectives {directives : List Directive}
    (h : ∀ directive ∈ directives, directive.WellFormed true maximalDepth) :
    Reads constantDirectives (directiveTokens directives) directives IsFresh :=
  (reads_constantDirectives h).mono fun _ ht => ⟨ht .atSign (by decide), ht .openParen (by decide)⟩

/-- An argument definition or input field is read from its tokens. -/
theorem reads_inputValue {input : InputValue} (h : input.WellFormed) :
    Reads inputValue input.tokens input IsFresh := by
  have htokens : input.tokens = descriptionTokens input.description
      ++ .name input.name :: .punctuator .colon :: (input.type.tokens
        ++ (defaultTokens input.defaultValue ++ directiveTokens input.directives)) := by
    simp [InputValue.tokens, InputValue.leadingTokens]
  have hafterType : ∀ t, Opens (defaultTokens input.defaultValue
      ++ directiveTokens input.directives) IsFresh t → t ≠ .punctuator .bang := by
    cases input.defaultValue with
    | none => exact opens_directives (by decide) fun t ht => ht .bang (by decide)
    | some value => exact opens_cons (by decide)
  rw [htokens]
  refine (reads_description _).bind (.name (.expect ?_)) (opens_cons (isString_name _))
  refine (reads_typeRef h.type).bind ?_ hafterType
  refine (reads_defaultValue h.defaultValue).bind (reads_freshDirectives h.directives).map ?_
  exact opens_directives (by decide) fun t ht => ht .equals (by decide)

/-- An argument definition starts with a description or a name. -/
theorem starts_inputValue (input : InputValue) {property : Token → Prop}
    (hs : ∀ literal : StringLiteral, property literal.token)
    (hn : ∀ name, property (.name name)) : Starts input.tokens property := by
  rw [InputValue.tokens, InputValue.leadingTokens, List.append_assoc]
  exact (starts_described input.description hs (hn input.name)).append

/-- Argument definitions are read from their tokens, if no bracket follows where there are none. -/
theorem reads_argumentDefinitions {arguments : List InputValue}
    (h : ∀ argument ∈ arguments, argument.WellFormed) :
    Reads argumentDefinitions (argumentDefinitionTokens arguments) arguments
      (fun t => t ≠ .punctuator .openParen) := by
  have hrow : InRow inputValue InputValue.tokens IsFresh .closeParen arguments := by
    refine ⟨fun argument ha => reads_inputValue (h argument ha), ?_,
      isFresh_punctuator (by decide)⟩
    intro argument _
    exact starts_inputValue argument
      (fun literal => ⟨token_ne_punctuator literal _, isFresh_string literal⟩)
      fun name => ⟨fun h => (by cases h), isFresh_name name⟩
  exact (hrow.reads_optionalBetween .openParen).mono fun _ ht _ => ht

/-- A field is read from its tokens. -/
theorem reads_field {field : Field} (h : field.WellFormed) :
    Reads Parser.field field.tokens field IsFresh := by
  have htokens : field.tokens = descriptionTokens field.description
      ++ .name field.name :: (argumentDefinitionTokens field.arguments
        ++ .punctuator .colon :: (field.type.tokens ++ directiveTokens field.directives)) := by
    simp [Field.tokens, Field.leadingTokens]
  rw [htokens]
  refine (reads_description _).bind (.name ?_) (opens_cons (isString_name _))
  refine (reads_argumentDefinitions h.arguments).bind (.expect ?_) (opens_cons (by decide))
  refine (reads_typeRef h.type).bind (reads_freshDirectives h.directives).map ?_
  exact opens_directives (by decide) fun t ht => ht .bang (by decide)

/-- An enum value is read from its tokens. -/
theorem reads_enumValue {value : EnumValue} (h : value.WellFormed) :
    Reads enumValue value.tokens value IsFresh := by
  have htokens : value.tokens = descriptionTokens value.description
      ++ .name value.name :: directiveTokens value.directives := by
    simp [EnumValue.tokens, EnumValue.leadingTokens]
  have hname : ¬(Token.name value.name).value?.any isReservedValue = true := by
    simp [Token.value?, h.notReserved]
  rw [htokens]
  refine (reads_description _).bind ?_ (opens_cons (isString_name _))
  exact .current_cons fun _ => .ite_neg hname (.name (reads_freshDirectives h.directives).map)

/-- A member of a type of any kind is read from its tokens. -/
theorem reads_member {kind : BlockKind} {member : Member} (h : member.WellFormed kind) :
    Reads (Parser.member kind) member.tokens member IsFresh := by
  cases h with
  | object h => exact (reads_field h).map
  | interface h => exact (reads_field h).map
  | input h => exact (reads_inputValue h).map
  | value h => exact (reads_enumValue h).map

/-- A member starts with a description or a name. -/
theorem starts_member (member : Member) {property : Token → Prop}
    (hs : ∀ literal : StringLiteral, property literal.token)
    (hn : ∀ name, property (.name name)) : Starts member.tokens property := by
  cases member with
  | field f =>
      rw [Member.tokens, Field.tokens, Field.leadingTokens, List.append_assoc]
      exact (starts_described f.description hs (hn f.name)).append
  | input i => exact starts_inputValue i hs hn
  | value v =>
      rw [Member.tokens, EnumValue.tokens, EnumValue.leadingTokens]
      exact (starts_described v.description hs (hn v.name)).append

/-- Members are read from their tokens, if no brace follows where there are none. -/
theorem reads_members {kind : BlockKind} {members : List Member}
    (h : ∀ member ∈ members, member.WellFormed kind) :
    Reads (Parser.members kind)
      (encloseTokens .openBrace .closeBrace (members.map Member.tokens)) (members.map .node)
      (fun t => members = [] → t ≠ .punctuator .openBrace) := by
  have hrow : InRow (member kind) Member.tokens IsFresh .closeBrace members := by
    refine ⟨fun member hm => reads_member (h member hm), ?_, isFresh_punctuator (by decide)⟩
    intro member _
    exact starts_member member
      (fun literal => ⟨token_ne_punctuator literal _, isFresh_string literal⟩)
      fun name => ⟨fun h => (by cases h), isFresh_name name⟩
  exact (hrow.reads_optionalBetween .openBrace).map

end SchemaStitch.Parser

import SchemaStitch.Proofs.Reading.Operation

/-! # Definitions are read back

    A well-formed definition without comments is read from its tokens
    (`reads_definition`), unless what follows goes on with it.  Only one thing that may
    follow does: a definition without braces of its own that could have some, such as a type
    without members, takes the brace of a query without a word for its own
    (`resumes_openDefinition`). -/

namespace SchemaStitch.Parser

/-- A token that may start a definition, or the end of the text. -/
def IsOutside (t : Token) : Prop :=
  IsFresh t ∧ t ≠ wordToken "implements"

theorem isOutside_punctuator {p : Punctuator} (h : p ∉ continuing) : IsOutside (.punctuator p) :=
  ⟨isFresh_punctuator h, fun h => by cases h⟩

/-! ## Type definitions -/

/-- Interfaces are read from their tokens, if no other follows. -/
theorem reads_interfaces (interfaces : List Text) :
    Reads Parser.interfaces (interfaceTokens interfaces) interfaces
      (fun t => t ≠ .punctuator .ampersand ∧ t ≠ wordToken "implements") := by
  rw [interfaceTokens]
  split
  · next hempty =>
      rw [List.isEmpty_iff.mp hempty]
      exact .skipWord_false (.ite_neg Bool.false_ne_true (.pure [] _)) fun _ ht => ht.2
  · next hfull =>
      have hne : interfaces ≠ [] := by simpa using hfull
      have hseparated := reads_separatedNames .ampersand hne
      exact .skipWord (.ite_pos rfl (hseparated.mono fun _ ht => ht.1))

/-- A type with members is read up to its members. -/
theorem resumes_block {block : Block} (h : block.WellFormed) :
    Resumes (Parser.block block.kind block.description)
      (.name block.name :: (interfaceTokens block.interfaces ++ directiveTokens block.directives))
      (do
        let members ← Parser.members block.kind
        pure { block with members }) IsOutside := by
  have hdirectives := (reads_freshDirectives h.directives).mono
    (fun _ ht => ht.1 : ∀ t, IsOutside t → IsFresh t)
  have hopens : ∀ t, Opens (directiveTokens block.directives) IsOutside t →
      t ≠ .punctuator .ampersand ∧ t ≠ wordToken "implements" :=
    opens_directives ⟨by decide, fun h => by cases h⟩
      fun t ht => ⟨ht.1 .ampersand (by decide), ht.2⟩
  by_cases hkind : mayImplement block.kind = true
  · exact .name (.ite_pos hkind ((reads_interfaces _).bind hdirectives.andThen hopens))
  · have hnone : block.interfaces = [] := by
      by_contra hne
      exact hkind (h.implements hne)
    rw [hnone]
    exact .name (.ite_neg hkind (.pure_bind hdirectives.andThen))

/-- A type with members is read from its tokens behind the keyword. -/
theorem reads_block {block : Block} (h : block.WellFormed)
    (hm : block.members = (Entry.nodes block.members).map .node) :
    Reads (Parser.block block.kind block.description)
      (.name block.name :: (interfaceTokens block.interfaces ++ directiveTokens block.directives)
        ++ encloseTokens .openBrace .closeBrace ((Entry.nodes block.members).map Member.tokens))
      block
      (fun t => IsOutside t ∧ (Entry.nodes block.members = [] → t ≠ .punctuator .openBrace)) := by
  have hmembers := (reads_members h.members).map (g := fun members => { block with members })
  rw [← hm] at hmembers
  refine (resumes_block h).trans (hmembers.mono fun _ ht => ht.2) ?_
  cases Entry.nodes block.members with
  | nil => exact fun t ht => ht.1
  | cons member rest => exact opens_cons (isOutside_punctuator (by decide))

/-- A scalar is read from its tokens behind the keyword. -/
theorem reads_scalarType {scalar : ScalarType} (h : scalar.WellFormed) :
    Reads (scalarType scalar.description)
      (.name scalar.name :: directiveTokens scalar.directives) scalar IsOutside :=
  .name ((reads_freshDirectives h.directives).map.mono fun _ ht => ht.1)

/-- A union is read from its tokens behind the keyword. -/
theorem reads_unionType {union : UnionType} (h : union.WellFormed) :
    Reads (unionType union.description)
      (.name union.name :: (directiveTokens union.directives
        ++ if union.types.isEmpty then []
          else .punctuator .equals
            :: separateTokens (.punctuator .bar) (union.types.map fun name => [.name name])))
      union IsOutside := by
  refine .name ((reads_constantDirectives h.directives).bind ?_ ?_)
  · split
    · next hempty =>
        refine .skip_false (.ite_neg Bool.false_ne_true (.pure_bind ?_))
          fun _ ht => ht.1 .equals (by decide)
        rw [← List.isEmpty_iff.mp hempty]
        exact .pure _ _
    · next hfull =>
        have hne : union.types ≠ [] := by simpa using hfull
        have hseparated := (reads_separatedNames .bar hne).mono
          (fun _ ht => ht.1 .bar (by decide) : ∀ t, IsOutside t → t ≠ .punctuator .bar)
        exact .skip (.ite_pos rfl hseparated.map)
  · split
    · exact fun _ ht => ⟨ht.1 .atSign (by decide), ht.1 .openParen (by decide)⟩
    · exact opens_cons (by decide)

/-- The word that a type definition starts with. -/
def keywordOf : TypeDefinition → Text
  | .scalar _ => "scalar"
  | .block b => b.kind.keyword
  | .union _ => "union"

theorem bareTokens_eq (type : TypeDefinition) :
    ∃ tail, type.bareTokens = .name (keywordOf type) :: tail := by
  cases type with
  | scalar s => exact ⟨_, rfl⟩
  | block b => exact ⟨_, rfl⟩
  | union u => exact ⟨_, rfl⟩

/-- The keyword of a type with members tells its kind. -/
theorem typeDefinition?_block (kind : BlockKind) :
    typeDefinition? kind.keyword
      = some (fun description => do pure (TypeDefinition.block (← block kind description))) := by
  cases kind <;> rfl

/-- A type definition is read behind its keyword. -/
theorem reads_typeDefinition {type : TypeDefinition} (h : type.WellFormed)
    (hu : type.members = (Entry.nodes type.members).map .node) :
    ∃ p tail, typeDefinition? (keywordOf type) = some p
      ∧ type.bareTokens = .name (keywordOf type) :: tail
      ∧ Reads (p type.description) tail type
        (fun t => IsOutside t ∧ (type.isOpen = true → t ≠ .punctuator .openBrace)) := by
  cases type with
  | scalar s =>
      exact ⟨_, _, rfl, rfl, (reads_scalarType h).map.mono fun _ ht => ht.1⟩
  | block b =>
      have hblock := (reads_block h hu).map (g := TypeDefinition.block)
      have hnext : ∀ t, IsOutside t ∧ ((TypeDefinition.block b).isOpen = true → t ≠ .punctuator .openBrace) →
          IsOutside t ∧ (Entry.nodes b.members = [] → t ≠ .punctuator .openBrace) :=
        fun t ht => ⟨ht.1, fun hnil => ht.2 (List.isEmpty_iff.mpr hnil)⟩
      exact ⟨_, _, typeDefinition?_block b.kind, rfl, hblock.mono hnext⟩
  | union u =>
      exact ⟨_, _, rfl, rfl, (reads_unionType h).map.mono fun _ ht => ht.1⟩

/-! ## Schema declarations and directives -/

/-- The place of a directive is told by its word. -/
theorem ofKeyword?_location (location : DirectiveLocation) :
    DirectiveLocation.ofKeyword? location.keyword = some location := by
  cases location <;> rfl

/-- A root operation is read from its tokens. -/
theorem reads_rootOperation (root : RootOperation) :
    Reads rootOperation root.tokens root Anything :=
  (reads_operationKind root.operation).bind (.expect (reads_name root.type).map) fun _ _ => trivial

/-- Root operations are in a row up to the closing brace. -/
theorem inRow_rootOperations (roots : List RootOperation) :
    InRow rootOperation RootOperation.tokens Anything .closeBrace roots :=
  ⟨fun root _ => reads_rootOperation root,
    fun _ _ => ⟨_, _, rfl, fun h => (by cases h), trivial⟩, trivial⟩

/-- A schema declaration is read from its tokens behind the keyword. -/
theorem reads_schemaBlock {schema : SchemaBlock} (h : schema.WellFormed)
    (hne : schema.operations ≠ []) :
    Reads (schemaBlock schema.description)
      (directiveTokens schema.directives
        ++ encloseTokens .openBrace .closeBrace (schema.operations.map RootOperation.tokens))
      schema Anything := by
  have hroots := (inRow_rootOperations schema.operations).reads_someBetween hne .openBrace
  refine (reads_constantDirectives h.directives).bind hroots.map ?_
  obtain ⟨root, rest, hcons⟩ := List.exists_cons_of_ne_nil hne
  rw [hcons]
  exact opens_cons (by decide)

/-- The place of a directive is read from its word. -/
theorem reads_directiveLocation (location : DirectiveLocation) :
    Reads directiveLocation [.name location.keyword] location Anything := by
  refine .current_cons fun _ => .name ?_
  rw [ofKeyword?_location]
  exact .pure location _

/-- The definition of a directive is read from its tokens behind the keyword. -/
theorem reads_directiveDefinition {directive : DirectiveDefinition} (h : directive.WellFormed) :
    Reads (directiveDefinition directive.description)
      (.punctuator .atSign :: .name directive.name
        :: (argumentDefinitionTokens directive.arguments
          ++ ((if directive.repeatable then [wordToken "repeatable"] else [])
            ++ wordToken "on" :: separateTokens (.punctuator .bar)
              (directive.locations.map fun location => [.name location.keyword]))))
      directive (fun t => t ≠ .punctuator .bar) := by
  obtain ⟨description, name, arguments, repeatable, locations⟩ := directive
  have hlocations := reads_separated .bar h.locations
    (fun location _ => reads_directiveLocation location)
    (fun _ _ => ⟨_, _, rfl, fun h => by cases h⟩) trivial
  have hplaces := (hlocations.mono (fun _ ht => ⟨ht, trivial⟩ :
    ∀ t, t ≠ .punctuator .bar → _)).map (g := fun locations =>
      (⟨description, name, arguments, repeatable, locations⟩ : DirectiveDefinition))
  refine .expect (.name ((reads_argumentDefinitions h.arguments).bind ?_ ?_))
  · cases repeatable with
    | true => exact .skipWord (.expectWord hplaces)
    | false => exact .skipWord_false (.expectWord hplaces) (opens_cons (by decide))
  · cases repeatable with
    | true => exact opens_cons fun h => by cases h
    | false => exact opens_cons fun h => by cases h

/-! ## Definitions -/

section

variable {word : Text} {tail : List Token} {q : Parser Definition} {next : Token → Prop}

/-- A definition is read as its keyword tells. -/
theorem resumes_described {p : Option StringLiteral → Parser Definition}
    (hw : describedDefinition? word = some p) (description : Option StringLiteral)
    (h : Resumes (p description) (.name word :: tail) q next) :
    Resumes definition (descriptionTokens description ++ .name word :: tail) q next := by
  have hread : Resumes (Parser.description >>= p)
      (descriptionTokens description ++ .name word :: tail) q next :=
    (reads_description description).bind h (opens_cons rfl)
  cases description with
  | none =>
      refine .current_cons fun start => .ite_neg Bool.false_ne_true (.pure_bind ?_)
      dsimp only
      rw [hw]
      exact hread
  | some literal =>
      have hstring : isString literal.token = true := by
        rw [StringLiteral.token]
        split <;> rfl
      refine .current_cons fun start => .ite_pos hstring (.following_cons fun offset => ?_)
      dsimp only
      rw [hw]
      exact hread

/-- An extension of a type is read as the word behind its first one tells. -/
theorem resumes_typeExtension {p : Option StringLiteral → Parser TypeDefinition}
    (hp : typeDefinition? word = some p) (hs : word ≠ "schema")
    (h : Resumes (typeExtension (p none)) tail q next) :
    Resumes definition (wordToken "extend" :: .name word :: tail) q next := by
  refine .current_cons fun _ => .ite_neg Bool.false_ne_true (.pure_bind ?_)
  refine .following_cons fun _ => .ite_neg hs ?_
  rw [hp]
  exact .advance_bind (.advance_bind h)

/-- Two words open a schema extension. -/
theorem resumes_schemaExtension (h : Resumes schemaExtension tail q next) :
    Resumes definition (wordToken "extend" :: wordToken "schema" :: tail) q next := by
  refine .current_cons fun _ => .ite_neg Bool.false_ne_true (.pure_bind ?_)
  exact .following_cons fun _ => .ite_pos rfl (.advance_bind (.advance_bind h))

end

/-- Selections alone are read as a shorthand query. -/
theorem reads_shorthand {operation : Operation} (h : operation.WellFormed)
    (hs : operation.isShorthand = true) :
    Reads definition operation.tokens (.operation operation) Anything := by
  have hselections : Reads shorthandQuery (selectionSetTokens operation.selections) operation
      Anything := by
    rw [operation.eq_of_isShorthand hs]
    exact (reads_selections h.selections).map
  rw [Operation.tokens_of_isShorthand hs]
  refine .current_starts (starts_selections h.selections.nonempty) fun t start ht => ?_
  subst ht
  exact .ite_neg Bool.false_ne_true (.pure_bind (.ite_neg Bool.false_ne_true hselections.map))

/-- What may stand behind a definition. -/
def Follows (d : Definition) (t : Token) : Prop :=
  IsOutside t ∧ (d.isOpen = true → t ≠ .punctuator .openBrace)

/-- The word of a type definition tells how to go on. -/
theorem describedDefinition?_type (type : TypeDefinition) :
    describedDefinition? (keywordOf type)
      = (typeDefinition? (keywordOf type)).map (fun definition description => do
        advance
        pure (Definition.type (← definition description))) := by
  cases type with
  | scalar s => rfl
  | block b =>
      show describedDefinition? b.kind.keyword = (typeDefinition? b.kind.keyword).map _
      cases b.kind <;> rfl
  | union u => rfl

theorem describedDefinition?_operation (kind : OperationKind) :
    describedDefinition? kind.keyword
      = some (fun description => do pure (Definition.operation (← operation description))) := by
  cases kind <;> rfl

theorem keywordOf_ne_schema (type : TypeDefinition) : keywordOf type ≠ "schema" := by
  cases type with
  | scalar s => exact (by decide : ("scalar" : Text) ≠ "schema")
  | block b =>
      show b.kind.keyword ≠ "schema"
      cases b.kind <;> decide
  | union u => exact (by decide : ("union" : Text) ≠ "schema")

/-- What stands behind the words of an extension of the schema. -/
theorem resumes_schemaExtensionBody {schema : SchemaBlock} (h : schema.WellFormed) :
    Resumes schemaExtension (directiveTokens schema.directives)
      (do
        let operations ← optionalBetween .openBrace rootOperation .closeBrace
        if schema.directives.isEmpty && operations.isEmpty then unexpected
        else
          pure (.extendSchema
            { description := none, directives := schema.directives, operations })) IsOutside :=
  ((reads_freshDirectives h.directives).mono fun _ ht => ht.1).andThen

/-- A schema extension is read from its tokens, if it adds something. -/
theorem reads_schemaExtension {schema : SchemaBlock} (h : schema.WellFormed)
    (hd : schema.description = none) (hadds : schema.directives ≠ [] ∨ schema.operations ≠ []) :
    Reads schemaExtension
      (directiveTokens schema.directives
        ++ encloseTokens .openBrace .closeBrace (schema.operations.map RootOperation.tokens))
      (.extendSchema schema)
      (fun t => IsOutside t ∧ (schema.operations = [] → t ≠ .punctuator .openBrace)) := by
  obtain ⟨description, directives, operations⟩ := schema
  obtain rfl : description = none := hd
  have hempty : ¬(directives.isEmpty && operations.isEmpty) = true := by
    rcases hadds with hne | hne <;> simp [hne]
  have hroots := ((inRow_rootOperations operations).reads_optionalBetween .openBrace).mono
    (fun _ ht => ht.2 : ∀ t, IsOutside t ∧ (operations = [] → t ≠ .punctuator .openBrace) → _)
  have hbody := hroots.bind (f := fun operations =>
    if directives.isEmpty && operations.isEmpty then unexpected
    else pure (Definition.extendSchema { description := none, directives, operations }))
    (.ite_neg hempty (.pure _ _)) fun _ ht => ht
  rw [List.append_nil] at hbody
  refine (resumes_schemaExtensionBody h).trans hbody ?_
  cases operations with
  | nil => exact fun t ht => ht.1
  | cons root rest => exact opens_cons (isOutside_punctuator (by decide))

/-- A well-formed definition without comments is read from its tokens. -/
theorem reads_definition {d : Definition} (h : d.WellFormed) (hu : d.Uncommented) :
    Reads definition d.tokens d (Follows d) := by
  cases d with
  | schema s =>
      exact resumes_described rfl s.description (.advance_bind (reads_schemaBlock h.1 h.2).map.relax)
  | type t =>
      obtain ⟨p, tail, hp, htail, hread⟩ := reads_typeDefinition h hu
      have hw := describedDefinition?_type t
      rw [hp] at hw
      rw [Definition.tokens, htail]
      exact resumes_described hw t.description (.advance_bind hread.map)
  | directive d =>
      have hread := (reads_directiveDefinition h).mono
        (fun _ ht => ht.1.1 .bar (by decide) : ∀ t, Follows (.directive d) t → t ≠ .punctuator .bar)
      rw [Definition.tokens, DirectiveDefinition.bareTokens]
      simp only [List.append_assoc, List.cons_append]
      exact resumes_described rfl d.description (.advance_bind hread.map)
  | extendSchema s =>
      obtain ⟨hw, hdescription, hadds⟩ := h
      have hread := (reads_schemaExtension hw hdescription hadds).mono
        (fun _ ht => ⟨ht.1, fun hnil => ht.2 (List.isEmpty_iff.mpr hnil)⟩ :
          ∀ t, Follows (.extendSchema s) t → _)
      exact resumes_schemaExtension hread
  | extendType t =>
      obtain ⟨hw, hdescription, hadds⟩ := h
      obtain ⟨p, tail, hp, htail, hread⟩ := reads_typeDefinition hw hu
      have hextension := hread.bind (f := fun type =>
        if addsToType type then pure (Definition.extendType type) else unexpected)
        (.ite_pos hadds (.pure _ _)) fun _ ht => ht
      rw [List.append_nil, hdescription] at hextension
      rw [Definition.tokens, htail]
      exact resumes_typeExtension hp (keywordOf_ne_schema t) hextension
  | operation o =>
      -- a query with nothing before its selections is written without its word
      by_cases hs : o.isShorthand = true
      · exact (reads_shorthand h hs).relax
      · rw [Definition.tokens, o.tokens_eq, if_neg hs, List.append_assoc, List.append_assoc]
        exact resumes_described (describedDefinition?_operation o.kind) o.description
          (reads_operation h).map.relax
  | fragment f =>
      rw [Definition.tokens, Fragment.tokens]
      simp only [List.append_assoc, List.cons_append]
      exact resumes_described rfl f.description (.advance_bind (reads_fragment h).map.relax)

end SchemaStitch.Parser

import SchemaStitch.Proofs.Yielding

/-! # Documents that are read are well formed

    One lemma for each parser, from types and values up to documents.  Two parsers look at
    the current token before a name is read, so that it is none of the names that have no
    place there (`YieldsAt`). -/

namespace SchemaStitch

open SchemaStitch.Parser

namespace Parser

variable {α : Type}

/-! ## Types and values -/

/-- A type by its name has a name and no list around it. -/
theorem yields_namedType : Yields namedType fun type => isName type.name = true ∧ type.depth = 0 :=
  .bind yields_name fun _ hn => .map (yields_skip _) fun _ _ => ⟨hn, rfl⟩

/-- A type has a name and lists no deeper than allowed. -/
theorem yields_typeRefWithin (depth : Nat) :
    Yields (typeRefWithin depth) fun type => isName type.name = true ∧ type.depth ≤ depth := by
  have hnamed (bound : Nat) :
      Yields namedType fun type => isName type.name = true ∧ type.depth ≤ bound :=
    yields_namedType.mono fun type ⟨hn, hd⟩ => ⟨hn, hd ▸ Nat.zero_le _⟩
  induction depth with
  | zero => exact .bind (yields_skip _) fun _ _ => .ite (fun _ => .failHere _) fun _ => hnamed 0
  | succ depth ih =>
      refine .bind (yields_skip _) fun _ _ => .ite (fun _ => ?_) fun _ => hnamed (depth + 1)
      refine .bind ih fun item hitem => .bind (yields_expect _) fun _ _ => ?_
      exact .map (yields_skip _) fun _ _ => ⟨hitem.1, Nat.succ_le_succ hitem.2⟩

theorem yields_typeRef : Yields typeRef TypeRef.WellFormed :=
  (yields_typeRefWithin _).mono fun _ ⟨hn, hd⟩ => ⟨hn, hd⟩

/-- A name stands for a truth value, null or a value of an enum. -/
theorem wellFormed_valueOfName (constant : Bool) (depth : Nat) {name : Text}
    (h : isName name = true) : (valueOfName name).WellFormed constant depth := by
  rw [valueOfName]
  split
  · exact .boolean true
  · split
    · exact .boolean false
    · split
      · exact .null
      · next ht hf hn =>
          refine .enum h ?_
          rw [isReservedValue, decide_eq_false ht, decide_eq_false hf, decide_eq_false hn]
          rfl

/-- A variable has a name, and a constant value holds none. -/
theorem yields_variableRef (constant : Bool) (depth : Nat) :
    Yields (variableRef constant) (Value.WellFormed constant depth) := by
  refine .bind .current fun ⟨dollar, offset⟩ _ => .bind (yields_expect _) fun _ _ => ?_
  cases constant with
  | true =>
      refine .bind .current fun ⟨t, start⟩ _ => ?_
      cases t <;> exact .throw _
  | false => exact .map yields_name fun name hn => .variableRef rfl hn

/-- A value is well formed if the lists and objects in it are. -/
theorem yields_valueWith (constant : Bool) (depth : Nat) {list object : Parser Value}
    (hl : Yields list (Value.WellFormed constant depth))
    (ho : Yields object (Value.WellFormed constant depth)) :
    Yields (valueWith constant list object) (Value.WellFormed constant depth) := by
  -- all but lists and objects are one token
  have hleaf {value : Value} (h : value.WellFormed constant depth) :
      Yields (do advance; pure value) (Value.WellFormed constant depth) :=
    .bind .advance fun _ _ => .pure h
  refine .bind .current fun ⟨t, start⟩ ht => ?_
  cases t with
  | punctuator p =>
      cases p with
      | openBracket => exact hl
      | openBrace => exact ho
      | dollar => exact yields_variableRef constant depth
      | _ => exact .failHere _
  | int digits => exact hleaf (.int ht)
  | float digits => exact hleaf (.float ht)
  | string value =>
      have hliteral : (StringLiteral.mk value false).WellFormed := trivial
      exact hleaf (.string hliteral)
  | blockString value =>
      have hliteral : (StringLiteral.mk value true).WellFormed := ht
      exact hleaf (.string hliteral)
  | name name => exact hleaf (wellFormed_valueOfName constant depth ht)
  | endOfText => exact .failHere _

/-- A label is a name, and what is behind it is as it is read. -/
theorem yields_labelled {value : Parser Value} {P : Value → Prop} (hv : Yields value P) :
    Yields (labelled value) fun field => isName field.1 = true ∧ P field.2 :=
  .bind yields_name fun _ hn => .bind (yields_expect _) fun _ _ => .map hv fun _ h => ⟨hn, h⟩

/-- A value is well formed, with lists and objects no deeper than allowed. -/
theorem yields_valueWithin (constant : Bool) (depth : Nat) :
    Yields (valueWithin constant depth) (Value.WellFormed constant depth) := by
  induction depth with
  | zero => exact yields_valueWith constant 0 (.failHere _) (.failHere _)
  | succ depth ih =>
      refine yields_valueWith constant (depth + 1) ?_ ?_
      · exact .map (yields_between _ _ ih) fun _ h => .list h
      · exact .map (yields_between _ _ (yields_labelled ih)) fun _ h =>
          .object (fun field hf => (h field hf).1) fun field hf => (h field hf).2

theorem yields_constantValue : Yields constantValue (Value.WellFormed true maximalDepth) :=
  yields_valueWithin true maximalDepth

/-- A default value is constant and well formed. -/
theorem yields_defaultValue :
    Yields defaultValue fun value => ∀ v ∈ value, Value.WellFormed true maximalDepth v :=
  .bind (yields_skip _) fun _ _ => .ite
    (fun _ => .map yields_constantValue fun _ hv _ h => Option.some.inj h ▸ hv)
    fun _ => .pure fun _ h => by cases h

section

variable {constant : Bool} {depth : Nat} {value : Parser Value}

/-- Arguments have names and well-formed values. -/
theorem yields_arguments (hv : Yields value (Value.WellFormed constant depth)) :
    Yields (arguments value) fun arguments =>
      ∀ argument ∈ arguments, argument.WellFormed constant depth :=
  yields_optionalBetween _ _ (.map (yields_labelled hv) fun _ h => ⟨h.1, h.2⟩)

/-- Directives have names and well-formed arguments. -/
theorem yields_directives (hv : Yields value (Value.WellFormed constant depth)) :
    Yields (directives value) fun directives =>
      ∀ directive ∈ directives, directive.WellFormed constant depth :=
  yields_itemsUntil (.map (yields_skip _) fun _ _ => trivial)
    (.bind yields_name fun _ hn => .map (yields_arguments hv) fun _ ha => ⟨hn, ha⟩)

end

theorem yields_constantDirectives :
    Yields constantDirectives fun directives =>
      ∀ directive ∈ directives, directive.WellFormed true maximalDepth :=
  yields_directives yields_constantValue

/-- A description is a string that its form can spell. -/
theorem yields_description :
    Yields description fun description => ∀ literal ∈ description, literal.WellFormed := by
  refine .bind .current fun ⟨t, start⟩ ht => ?_
  cases t with
  | string value =>
      exact .bind .advance fun _ _ => .pure fun literal h => Option.some.inj h ▸ trivial
  | blockString value =>
      refine .bind .advance fun _ _ => .pure fun literal h => ?_
      rw [← Option.some.inj h]
      exact ht
  | _ => exact .pure fun literal h => by cases h

/-! ## Members -/

/-- An argument definition or input field is well formed. -/
theorem yields_inputValue : Yields inputValue InputValue.WellFormed :=
  .bind yields_description fun _ hdescription => .bind yields_name fun _ hname =>
    .bind (yields_expect _) fun _ _ => .bind yields_typeRef fun _ htype =>
    .bind yields_defaultValue fun _ hdefault => .map yields_constantDirectives fun _ hdirectives =>
      ⟨hdescription, hname, htype, hdefault, hdirectives⟩

/-- Argument definitions are well formed, each of them. -/
theorem yields_argumentDefinitions :
    Yields argumentDefinitions fun arguments => ∀ argument ∈ arguments, argument.WellFormed :=
  yields_optionalBetween _ _ yields_inputValue

/-- A field is well formed. -/
theorem yields_field : Yields field Field.WellFormed :=
  .bind yields_description fun _ hdescription => .bind yields_name fun _ hname =>
    .bind yields_argumentDefinitions fun _ harguments => .bind (yields_expect _) fun _ _ =>
    .bind yields_typeRef fun _ htype => .map yields_constantDirectives fun _ hdirectives =>
      ⟨hdescription, hname, harguments, htype, hdirectives⟩

/-- An enum value is well formed: its name is none of the three reserved ones. -/
theorem yields_enumValue : Yields enumValue EnumValue.WellFormed := by
  refine .bind yields_description fun _ hdescription => .current_bind fun t start ht => ?_
  refine .ite (fun _ => ?_) fun hreserved => ?_
  · exact .bind (Yields.failHere (P := fun _ => False) _).atToken fun _ h => h.elim
  · refine .bind (yieldsAt_name t) fun word hword => .map yields_constantDirectives
      fun _ hdirectives => ⟨hdescription, hword.1, ?_, hdirectives⟩
    simpa [hword.2] using hreserved

/-- A member is one of its type's kind, and well formed. -/
theorem yields_member (kind : BlockKind) : Yields (member kind) (Member.WellFormed kind) := by
  cases kind with
  | object => exact .map yields_field fun _ h => .object h
  | interface => exact .map yields_field fun _ h => .interface h
  | input => exact .map yields_inputValue fun _ h => .input h
  | enum => exact .map yields_enumValue fun _ h => .value h

/-- The members that are read are well formed, and no comment is among them. -/
theorem yields_members (kind : BlockKind) :
    Yields (members kind) fun entries => entries = (Entry.nodes entries).map .node
      ∧ ∀ member ∈ Entry.nodes entries, member.WellFormed kind := by
  refine .map (yields_optionalBetween _ _ (yields_member kind)) fun members h => ?_
  rw [Entry.nodes_map_node]
  exact ⟨rfl, h⟩

/-! ## Type definitions -/

/-- Interfaces are names. -/
theorem yields_interfaces : Yields interfaces fun names => ∀ name ∈ names, isName name = true :=
  .bind (yields_skipWord _) fun _ _ => .ite
    (fun _ => (yields_separated _ yields_name).mono fun _ h => h.2)
    fun _ => .pure fun _ h => by cases h

/-- What a type is like when it is read behind a description. -/
structure ReadType (description : Option StringLiteral) (type : TypeDefinition) : Prop where
  wellFormed : type.WellFormed
  description : type.description = description
  uncommented : type.members = (Entry.nodes type.members).map .node

section

variable {description : Option StringLiteral}

/-- A type with members is well formed and keeps its description. -/
theorem yields_block (kind : BlockKind) (hd : ∀ literal ∈ description, literal.WellFormed) :
    Yields (block kind description) fun block => ReadType description (.block block) := by
  have hbehind (name : Text) (hn : isName name = true) (names : List Text)
      (hi : (∀ name ∈ names, isName name = true) ∧ (names ≠ [] → mayImplement kind = true)) :
      Yields (do
        let directives ← constantDirectives
        let members ← members kind
        pure { kind, description, name, interfaces := names, directives, members : Block })
        fun block => ReadType description (.block block) :=
    .bind yields_constantDirectives fun _ hdirectives => .map (yields_members kind)
      fun _ hmembers => ⟨⟨hd, hn, hi.1, hi.2, hdirectives, hmembers.2⟩, rfl, hmembers.1⟩
  refine .bind yields_name fun name hn => .ite (fun hk => ?_) fun _ => ?_
  · exact .bind yields_interfaces fun names hi => hbehind name hn names ⟨hi, fun _ => hk⟩
  · exact hbehind name hn [] ⟨fun _ h => (by cases h), fun h => absurd rfl h⟩

/-- A scalar is well formed and keeps its description. -/
theorem yields_scalarType (hd : ∀ literal ∈ description, literal.WellFormed) :
    Yields (scalarType description) fun scalar => ReadType description (.scalar scalar) :=
  .bind yields_name fun _ hn => .map yields_constantDirectives fun _ hdirectives =>
    ⟨⟨hd, hn, hdirectives⟩, rfl, rfl⟩

/-- A union is well formed and keeps its description. -/
theorem yields_unionType (hd : ∀ literal ∈ description, literal.WellFormed) :
    Yields (unionType description) fun union => ReadType description (.union union) := by
  refine .bind yields_name fun name hn => .bind yields_constantDirectives fun directives hdirectives => ?_
  have hbehind (types : List Text) (ht : ∀ name ∈ types, isName name = true) :
      ReadType description (.union ⟨description, name, directives, types⟩) :=
    ⟨⟨hd, hn, hdirectives, ht⟩, rfl, rfl⟩
  refine .bind (yields_skip _) fun _ _ => .ite (fun _ => ?_) fun _ => ?_
  · exact .map (yields_separated _ yields_name) fun types ht => hbehind types ht.2
  · exact .pure (hbehind [] fun _ h => by cases h)

/-- A type of the kind that a keyword tells is well formed and keeps its description. -/
theorem yields_typeDefinition {word : Text} {p : Option StringLiteral → Parser TypeDefinition}
    (hp : typeDefinition? word = some p) (hd : ∀ literal ∈ description, literal.WellFormed) :
    Yields (p description) (ReadType description) := by
  rw [typeDefinition?] at hp
  have hblock (kind : BlockKind) :
      Yields (do pure (.block (← block kind description))) (ReadType description) :=
    .map (yields_block kind hd) fun _ h => h
  split at hp
  · rw [← Option.some.inj hp]
    exact .map (yields_scalarType hd) fun _ h => h
  · split at hp
    · exact Option.some.inj hp ▸ hblock .object
    · split at hp
      · exact Option.some.inj hp ▸ hblock .interface
      · split at hp
        · rw [← Option.some.inj hp]
          exact .map (yields_unionType hd) fun _ h => h
        · split at hp
          · exact Option.some.inj hp ▸ hblock .enum
          · split at hp
            · exact Option.some.inj hp ▸ hblock .input
            · cases hp

/-! ## Schema declarations and directives -/

theorem yields_operationKind : Yields operationKind fun _ => True := by
  refine .bind .current fun ⟨t, start⟩ _ => .bind yields_name fun word _ => ?_
  cases OperationKind.ofKeyword? word with
  | some kind => exact .pure trivial
  | none => exact .throw _

/-- The type of a root operation is a name. -/
theorem yields_rootOperation : Yields rootOperation fun root => isName root.type = true :=
  .bind yields_operationKind fun _ _ => .bind (yields_expect _) fun _ _ =>
    .map yields_name fun _ hn => hn

/-- A schema declaration is well formed and lists an operation. -/
theorem yields_schemaBlock (hd : ∀ literal ∈ description, literal.WellFormed) :
    Yields (schemaBlock description) fun schema =>
      schema.WellFormed ∧ schema.operations ≠ [] :=
  .bind yields_constantDirectives fun _ hdirectives =>
    .map (yields_someBetween _ _ yields_rootOperation) fun _ hoperations =>
      ⟨⟨hd, hdirectives, hoperations.2⟩, hoperations.1⟩

theorem yields_directiveLocation : Yields directiveLocation fun _ => True := by
  refine .bind .current fun ⟨t, start⟩ _ => .bind yields_name fun word _ => ?_
  cases DirectiveLocation.ofKeyword? word with
  | some location => exact .pure trivial
  | none => exact .throw _

/-- The definition of a directive is well formed. -/
theorem yields_directiveDefinition (hd : ∀ literal ∈ description, literal.WellFormed) :
    Yields (directiveDefinition description) DirectiveDefinition.WellFormed :=
  .bind (yields_expect _) fun _ _ => .bind yields_name fun _ hn =>
    .bind yields_argumentDefinitions fun _ ha => .bind (yields_skipWord _) fun _ _ =>
    .bind (yields_expectWord _) fun _ _ =>
    .map (yields_separated _ yields_directiveLocation) fun _ hl => ⟨hd, hn, ha, hl.1⟩

end

/-! ## Extensions -/

/-- A schema extension is well formed: it has directives or operations. -/
theorem yields_schemaExtension :
    Yields schemaExtension fun d => d.WellFormed ∧ d.Uncommented := by
  refine .bind yields_constantDirectives fun directives hdirectives => ?_
  refine .bind (yields_optionalBetween _ _ yields_rootOperation) fun operations hoperations => ?_
  refine .ite (fun _ => .failHere _) fun hadds => .pure ⟨⟨⟨?_, hdirectives, hoperations⟩, rfl, ?_⟩, rfl⟩
  · exact fun _ h => by cases h
  · rw [Bool.and_eq_true, List.isEmpty_iff, List.isEmpty_iff] at hadds
    by_cases hd : directives = []
    · exact .inr fun ho => hadds ⟨hd, ho⟩
    · exact .inl hd

/-- A type extension is well formed: it has no description and is not empty. -/
theorem yields_typeExtension {p : Parser TypeDefinition} (hp : Yields p (ReadType none)) :
    Yields (typeExtension p) fun d => d.WellFormed ∧ d.Uncommented :=
  .bind hp fun _ ht => .ite
    (fun hadds => .pure ⟨⟨ht.wellFormed, ht.description, hadds⟩, ht.uncommented⟩)
    fun _ => .failHere _

/-- An extension of any kind is well formed and holds no comment. -/
theorem yields_extension : Yields extension fun d => d.WellFormed ∧ d.Uncommented := by
  refine .bind .following fun ⟨t, start⟩ _ => ?_
  cases t with
  | name word =>
      refine .ite (fun _ => ?_) fun _ => ?_
      · exact .bind .advance fun _ _ => .bind .advance fun _ _ => yields_schemaExtension
      · cases hp : typeDefinition? word with
        | none => exact .throw _
        | some p =>
            refine .bind .advance fun _ _ => .bind .advance fun _ _ => yields_typeExtension ?_
            exact yields_typeDefinition hp fun _ h => by cases h
  | _ => exact .throw _

/-! ## Operations and fragments -/

/-- The name of a fragment is not the word that tells its type. -/
theorem yields_fragmentName :
    Yields fragmentName fun name => isName name = true ∧ name ≠ "on" := by
  refine .current_bind fun t start _ => .ite (fun _ => (Yields.failHere _).atToken) fun hon => ?_
  have hbehind := yieldsAt_name t
  intro lexeme behind name rest hl ht hread
  obtain ⟨⟨hn, hvalue⟩, hrest⟩ := hbehind lexeme behind name rest hl ht hread
  exact ⟨⟨hn, fun heq => hon (heq ▸ hvalue)⟩, hrest⟩

/-- A name behind which something is read, if there is one. -/
theorem yields_someName :
    Yields (some <$> name) fun label => ∀ name ∈ label, isName name = true := by
  rw [← bind_pure_comp]
  exact .map yields_name fun _ hn _ h => Option.some.inj h ▸ hn

section

variable {depth : Nat} {value : Parser Value} {selections : Parser (List Selection)}

/-- The first of two names is the alias of a field. -/
theorem yields_namedField {first : Text} (hf : isName first = true) {second : Option Text}
    (hn : ∀ name ∈ second, isName name = true) {arguments : List Argument}
    (ha : ∀ a ∈ arguments, a.WellFormed false depth) {directives : List Directive}
    (hd : ∀ d ∈ directives, d.WellFormed false depth) {inner : List Selection}
    (ho : inner ≠ [] → 0 < depth) (hi : ∀ s ∈ inner, s.WellFormed (depth - 1)) :
    Yields (match second with
      | none => pure (.field none first arguments directives inner)
      | some name => pure (.field (some first) name arguments directives inner))
      (Selection.WellFormed depth) := by
  cases second with
  | none => exact .pure (.field (fun _ h => by cases h) hf ha hd ho hi)
  | some name =>
      exact .pure (.field (fun _ h => Option.some.inj h ▸ hf) (hn name rfl) ha hd ho hi)

/-- A selected field is well formed, whatever of arguments, directives and selections it has. -/
theorem yields_behindNames (hv : Yields value (Value.WellFormed false depth))
    (hs : Yields selections (Selection.SetWellFormed depth)) {first : Text}
    (hf : isName first = true) (second : Option Text) (hn : ∀ name ∈ second, isName name = true) :
    Yields (do
      let arguments ← arguments value
      let directives ← directives value
      let inner ← if (← current).1 = .punctuator .openBrace then selections else pure []
      match second with
      | none => pure (.field none first arguments directives inner)
      | some name => pure (.field (some first) name arguments directives inner))
      (Selection.WellFormed depth) := by
  refine .bind (yields_arguments hv) fun arguments ha => ?_
  refine .bind (yields_directives hv) fun directives hd => .bind .current fun _ _ => ?_
  refine .ite (fun _ => ?_) fun _ => ?_
  · exact .bind hs fun inner hi => yields_namedField hf hn ha hd (fun _ => hi.opened) hi.selections
  · exact yields_namedField hf hn ha hd (fun h => absurd rfl h) fun _ h => by cases h

/-- A selected field is well formed if the selections below it are. -/
theorem yields_selectedField (hv : Yields value (Value.WellFormed false depth))
    (hs : Yields selections (Selection.SetWellFormed depth)) :
    Yields (selectedField value selections) (Selection.WellFormed depth) := by
  refine .bind yields_name fun first hf => .bind (yields_skip _) fun _ _ => ?_
  refine .ite (fun _ => ?_) fun _ => ?_
  · exact .bind yields_someName fun second hn => yields_behindNames hv hs hf second hn
  · exact yields_behindNames hv hs hf none fun _ h => by cases h

/-- A fragment spread or an inline fragment is well formed if the selections below it are. -/
theorem yields_selectedFragment (hv : Yields value (Value.WellFormed false depth))
    (hs : Yields selections (Selection.SetWellFormed depth)) :
    Yields (selectedFragment value selections) (Selection.WellFormed depth) := by
  have hinline (condition : Option Text) (hn : ∀ name ∈ condition, isName name = true) :
      Yields (do
        let directives ← directives value
        pure (.inline condition directives (← selections))) (Selection.WellFormed depth) :=
    .bind (yields_directives hv) fun _ hd => .map hs fun _ hi =>
      .inline hn hd hi.opened hi.nonempty hi.selections
  have hspread : Yields (do
      let name ← fragmentName
      pure (.spread name (← directives value))) (Selection.WellFormed depth) :=
    .bind yields_fragmentName fun _ hn => .map (yields_directives hv) fun _ hd =>
      .spread hn.1 hn.2 hd
  refine .bind (yields_skipWord _) fun conditional _ => .bind .current fun ⟨t, start⟩ _ => ?_
  have hset : Yields (if conditional = true then do
        let condition ← some <$> name
        let directives ← directives value
        pure (.inline condition directives (← selections))
      else do
        let directives ← directives value
        pure (.inline none directives (← selections))) (Selection.WellFormed depth) :=
    .ite (fun _ => .bind yields_someName fun condition hn => hinline condition hn)
      fun _ => hinline none fun _ h => by cases h
  -- three dots are followed by a condition, by the name of a fragment, or by neither
  cases conditional with
  | true => exact hset
  | false =>
      cases t with
      | name word => exact hspread
      | _ => exact hset

end

/-- Selections are well formed and no deeper than allowed; there is one at least. -/
theorem yields_selectionsWithin (depth : Nat) :
    Yields (selectionsWithin depth) (Selection.SetWellFormed depth) := by
  induction depth with
  | zero => exact .failHere _
  | succ depth ih =>
      have hvalue := yields_valueWithin false depth
      refine (yields_someBetween _ _ (.bind (yields_skip _) fun _ _ => .ite
        (fun _ => yields_selectedFragment hvalue ih)
        fun _ => yields_selectedField hvalue ih)).mono fun selections h => ?_
      exact ⟨Nat.succ_pos _, h.1, h.2⟩

theorem yields_selections : Yields selections (Selection.SetWellFormed maximalDepth) :=
  yields_selectionsWithin maximalDepth

/-- The definition of a variable is well formed. -/
theorem yields_variableDefinition : Yields variableDefinition VariableDefinition.WellFormed :=
  .bind yields_description fun _ hdescription => .bind (yields_expect _) fun _ _ =>
    .bind yields_name fun _ hname => .bind (yields_expect _) fun _ _ =>
    .bind yields_typeRef fun _ htype => .bind yields_defaultValue fun _ hdefault =>
    .map yields_constantDirectives fun _ hdirectives =>
      ⟨hdescription, hname, htype, hdefault, hdirectives⟩

theorem yields_shorthandQuery : Yields shorthandQuery Operation.WellFormed :=
  .map yields_selections fun _ hs => ⟨fun _ h => (by cases h), fun _ h => (by cases h),
    fun _ h => (by cases h), fun _ h => (by cases h), hs⟩

section

variable {description : Option StringLiteral}

/-- An operation is well formed and keeps its description. -/
theorem yields_operation (hd : ∀ literal ∈ description, literal.WellFormed) :
    Yields (operation description) Operation.WellFormed := by
  have hbehind (kind : OperationKind) (label : Option Text)
      (hn : ∀ name ∈ label, isName name = true) :
      Yields (do
        let variableDefinitions ← optionalBetween .openParen variableDefinition .closeParen
        let directives ← directives (valueWithin false maximalDepth)
        let selections ← selections
        pure { description, kind, name := label, variableDefinitions, directives, selections :
          Operation }) Operation.WellFormed :=
    .bind (yields_optionalBetween _ _ yields_variableDefinition) fun _ hv =>
      .bind (yields_directives (yields_valueWithin false maximalDepth)) fun _ hdirectives =>
      .map yields_selections fun _ hs => ⟨hd, hn, hv, hdirectives, hs⟩
  refine .bind yields_operationKind fun kind _ => .bind .current fun ⟨t, start⟩ _ => ?_
  cases t with
  | name word => exact .bind yields_someName fun label hn => hbehind kind label hn
  | _ => exact hbehind kind none fun _ h => by cases h

/-- A fragment is well formed and keeps its description. -/
theorem yields_fragment (hd : ∀ literal ∈ description, literal.WellFormed) :
    Yields (fragment description) Fragment.WellFormed :=
  .bind yields_fragmentName fun _ hn => .bind (yields_expectWord _) fun _ _ =>
    .bind yields_name fun _ ht =>
    .bind (yields_directives (yields_valueWithin false maximalDepth)) fun _ hdirectives =>
    .map yields_selections fun _ hs => ⟨hd, hn.1, hn.2, ht, hdirectives, hs⟩

/-! ## Documents -/

/-- A definition of the kind that a keyword tells is well formed and holds no comment. -/
theorem yields_describedDefinition {word : Text} {p : Option StringLiteral → Parser Definition}
    (hp : describedDefinition? word = some p) (hd : ∀ literal ∈ description, literal.WellFormed) :
    Yields (p description) fun d => d.WellFormed ∧ d.Uncommented := by
  rw [describedDefinition?] at hp
  split at hp
  · rw [← Option.some.inj hp]
    exact .bind .advance fun _ _ => .map (yields_schemaBlock hd) fun _ h => ⟨h, rfl⟩
  · split at hp
    · rw [← Option.some.inj hp]
      exact .bind .advance fun _ _ => .map (yields_directiveDefinition hd) fun _ h => ⟨h, rfl⟩
    · split at hp
      · rw [← Option.some.inj hp]
        exact .bind .advance fun _ _ => .map (yields_fragment hd) fun _ h => ⟨h, rfl⟩
      · split at hp
        · rw [← Option.some.inj hp]
          exact .map (yields_operation hd) fun _ h => ⟨h, rfl⟩
        · obtain ⟨q, hq, rfl⟩ := Option.map_eq_some_iff.mp hp
          exact .bind .advance fun _ _ => .map (yields_typeDefinition hq hd) fun _ h =>
            ⟨h.wellFormed, h.uncommented⟩

end

/-- A definition is read by the token that opens it behind a description. -/
theorem yields_opened (described : Bool) (start : Nat) (opening : Token) (offset : Nat) :
    Yields (match opening with
      | .punctuator .openBrace =>
          if described then throw (.descriptionOnShorthand, start)
          else do pure (.operation (← shorthandQuery))
      | .name word =>
          match describedDefinition? word with
          | some definition => do definition (← description)
          | none =>
              if described then throw (.descriptionOnOther, start)
              else if word = "extend" then extension
              else throw (.unexpected opening, offset)
      | _ => throw (.unexpected opening, offset)) fun d => d.WellFormed ∧ d.Uncommented := by
  split
  · exact .ite (fun _ => .throw _) fun _ => .map yields_shorthandQuery fun _ h => ⟨h, rfl⟩
  · split
    · next hp => exact .bind yields_description fun _ hd => yields_describedDefinition hp hd
    · refine .ite (fun _ => .throw _) fun _ => .ite (fun _ => ?_) fun _ => .throw _
      exact yields_extension
  · exact .throw _

/-- A definition of any kind is well formed and holds no comment. -/
theorem yields_definition : Yields definition fun d => d.WellFormed ∧ d.Uncommented := by
  refine .bind .current fun ⟨first, start⟩ hfirst => .ite (fun _ => ?_) fun _ => ?_
  · exact .bind .following fun ⟨opening, offset⟩ _ => yields_opened _ start opening offset
  · exact yields_opened _ start first start

theorem yields_atEnd : Yields atEnd fun _ => True :=
  .map .current fun _ _ => trivial

end Parser

/-- What the lexer yields are legal tokens. -/
theorem allLegal_lexemes (text : Text) : AllLegal (Lexer.lexemes text) :=
  fun _ hl _ ht => isLegal_of_mem_lexemes hl ht

/-- A document that is read consists of well-formed definitions without comments, of one at
    least. -/
theorem Document.parse_yields {text : Text} {document : Document}
    (h : Document.parse text = .ok document) :
    document.definitions ≠ [] ∧ document = ⟨document.definitions.map .node, [text]⟩
      ∧ ∀ d ∈ document.definitions, d.WellFormed ∧ d.Uncommented := by
  rw [Document.parse, whole] at h
  cases hread : someUntil atEnd definition (Lexer.lexemes text) with
  | error fault =>
      rw [hread] at h
      cases h
  | ok read =>
      obtain ⟨definitions, rest⟩ := read
      rw [hread] at h
      obtain rfl := Except.ok.inj h
      obtain ⟨hyields, -⟩ := yields_someUntil yields_atEnd yields_definition _ definitions rest
        (allLegal_lexemes text) hread
      rw [Document.definitions, Entry.nodes_map_node]
      exact ⟨hyields.1, rfl, hyields.2⟩

end SchemaStitch

import SchemaStitch.Proofs.Reading.Member

/-! # Operations and fragments are read back

    Sets of selections are nested, and each of them goes down by one in the depth that is
    left.  The induction is on well-formedness, which counts the same way. -/

namespace SchemaStitch.Parser

variable {depth : Nat}

/-! ## Selections -/

theorem reads_label (name : Text) :
    Reads (some <$> Parser.name) [.name name] (some name) Anything := by
  rw [map_eq_pure_bind]
  exact (reads_name name).map

/-- A token that goes on with no selection before it. -/
def EndsSelection (t : Token) : Prop :=
  IsFresh t ∧ t ≠ .punctuator .openBrace

/-- One selection of a set. -/
def selectionWithin (depth : Nat) : Parser Selection := do
  if ← skip .spread then
    selectedFragment (valueWithin false depth) (selectionsWithin depth)
  else selectedField (valueWithin false depth) (selectionsWithin depth)

/-- Selections are selections in braces, each with one level less below it. -/
theorem selectionsWithin_succ (depth : Nat) :
    selectionsWithin (depth + 1)
      = someBetween .openBrace (selectionWithin depth) .closeBrace :=
  rfl

/-- A selection starts neither with a closing brace nor with what would go on with the one before
    it. -/
theorem starts_selection (selection : Selection) :
    Starts selection.tokens fun t => t ≠ .punctuator .closeBrace ∧ EndsSelection t := by
  have hname : ∀ value : Text, Token.name value ≠ .punctuator .closeBrace
      ∧ EndsSelection (.name value) :=
    fun value => ⟨fun h => (by cases h), isFresh_name value, fun h => by cases h⟩
  have hspread : Token.punctuator .spread ≠ .punctuator .closeBrace
      ∧ EndsSelection (.punctuator .spread) :=
    ⟨by decide, isFresh_punctuator (by decide), by decide⟩
  cases selection with
  | field responseName name arguments directives selections =>
      rw [Selection.tokens_field]
      cases responseName with
      | none => exact ⟨_, _, rfl, hname name⟩
      | some label => exact ⟨_, _, rfl, hname label⟩
  | spread name directives =>
      rw [Selection.tokens]
      exact ⟨_, _, rfl, hspread⟩
  | inline typeCondition directives selections =>
      rw [Selection.tokens_inline]
      exact ⟨_, _, rfl, hspread⟩

/-- A set of selections, given how each of them is read. -/
theorem reads_selectionsOf {selections : List Selection} (hopen : 0 < depth)
    (hne : selections ≠ [])
    (h : ∀ selection ∈ selections,
      Reads (selectionWithin (depth - 1)) selection.tokens selection EndsSelection) :
    Reads (selectionsWithin depth)
      (encloseTokens .openBrace .closeBrace (selections.map Selection.tokens)) selections
      Anything := by
  obtain ⟨depth, rfl⟩ : ∃ n, depth = n + 1 := ⟨depth - 1, by omega⟩
  have hrow : InRow (selectionWithin depth) Selection.tokens EndsSelection .closeBrace selections :=
    ⟨h, fun selection _ => starts_selection selection, isFresh_punctuator (by decide), by decide⟩
  rw [selectionsWithin_succ]
  exact hrow.reads_someBetween hne .openBrace

/-- What an enclosed sequence starts with. -/
theorem opens_enclose {opening closing : Punctuator} {parts : List (List Token)}
    {others : List Token} {next property : Token → Prop} (hp : property (.punctuator opening))
    (ho : ∀ t, Opens others next t → property t) :
    ∀ t, Opens (encloseTokens opening closing parts ++ others) next t → property t := by
  cases parts with
  | nil => exact ho
  | cons part rest => exact opens_cons hp

/-- What directives start with, and what stands behind them. -/
theorem opens_directives_append {directives : List Directive} {others : List Token}
    {next property : Token → Prop} (hd : property (.punctuator .atSign))
    (ho : ∀ t, Opens others next t → property t) :
    ∀ t, Opens (directiveTokens directives ++ others) next t → property t := by
  cases directives with
  | nil => exact ho
  | cons directive rest => exact opens_cons hd

/-- The selections inside of a field: a set of them, or none. -/
theorem reads_innerSelections {selections : List Selection}
    (hopen : selections ≠ [] → 0 < depth)
    (h : ∀ selection ∈ selections,
      Reads (selectionWithin (depth - 1)) selection.tokens selection EndsSelection)
    {f : List Selection → Parser Selection} {selection : Selection}
    (hf : ∀ next, Reads (f selections) [] selection next) :
    Resumes (do
        if (← current).1 = .punctuator .openBrace then
          let inner ← selectionsWithin depth
          f inner
        else
          let inner ← pure []
          f inner)
      (encloseTokens .openBrace .closeBrace (selections.map Selection.tokens))
      (pure selection) EndsSelection := by
  by_cases hne : selections = []
  · rw [hne] at hf ⊢
    exact .current_nil fun t _ ht => .ite_neg ht.2 (.pure_bind (hf _))
  · have hset := (reads_selectionsOf (hopen hne) hne h).bind (hf EndsSelection) fun _ _ => trivial
    rw [List.append_nil] at hset
    rw [encloseTokens, if_neg (by simpa using hne)] at hset ⊢
    exact .current_cons fun _ => .ite_pos rfl hset

/-- The name of a fragment is read unless it is the word that tells its type. -/
theorem reads_fragmentName {name : Text} (h : name ≠ "on") :
    Reads fragmentName [.name name] name Anything :=
  .current_cons fun _ => .ite_neg (fun heq => h (Option.some.inj heq)) (reads_name name)

/-- The arguments, directives and selections of a field. -/
theorem reads_fieldBody {arguments : List Argument} {directives : List Directive}
    {selections : List Selection} {selection : Selection}
    {f : List Argument → List Directive → List Selection → Parser Selection}
    (ha : ∀ argument ∈ arguments, argument.WellFormed false depth)
    (hd : ∀ directive ∈ directives, directive.WellFormed false depth)
    (hopen : selections ≠ [] → 0 < depth)
    (hs : ∀ selection ∈ selections,
      Reads (selectionWithin (depth - 1)) selection.tokens selection EndsSelection)
    (hf : ∀ next, Reads (f arguments directives selections) [] selection next) :
    Reads (do
        let arguments ← Parser.arguments (valueWithin false depth)
        let directives ← Parser.directives (valueWithin false depth)
        if (← current).1 = .punctuator .openBrace then
          let inner ← selectionsWithin depth
          f arguments directives inner
        else
          let inner ← pure []
          f arguments directives inner)
      (argumentTokens arguments ++ (directiveTokens directives
        ++ encloseTokens .openBrace .closeBrace (selections.map Selection.tokens)))
      selection EndsSelection := by
  -- what opens the selections goes on with neither arguments nor directives
  have hset : ∀ {p : Punctuator}, p ∈ continuing → Token.punctuator .openBrace ≠ .punctuator p →
      ∀ t, Opens (encloseTokens .openBrace .closeBrace (selections.map Selection.tokens))
        EndsSelection t → t ≠ .punctuator p := by
    intro p hp hb
    cases selections with
    | nil => exact fun t ht => ht.1 p hp
    | cons first rest => exact opens_cons hb
  refine (reads_arguments ha).bind ((reads_directives hd).bind ?_ ?_) ?_
  · exact reads_innerSelections hopen hs hf
  · intro t ht
    exact ⟨hset (by decide) (by decide) t ht, hset (by decide) (by decide) t ht⟩
  · exact opens_directives_append (by decide) (hset (by decide) (by decide))

/-- A set of selections behind a condition on its type. -/
theorem reads_inlineBody {directives : List Directive} {selections : List Selection}
    (typeCondition : Option Text)
    (hd : ∀ directive ∈ directives, directive.WellFormed false depth)
    (hset : Reads (selectionsWithin depth)
      (encloseTokens .openBrace .closeBrace (selections.map Selection.tokens)) selections Anything)
    (hne : selections ≠ []) :
    Reads (do
        let directives ← Parser.directives (valueWithin false depth)
        pure (Selection.inline typeCondition directives (← selectionsWithin depth)))
      (directiveTokens directives
        ++ encloseTokens .openBrace .closeBrace (selections.map Selection.tokens))
      (Selection.inline typeCondition directives selections) Anything := by
  refine (reads_directives hd).bind hset.map ?_
  rw [encloseTokens, if_neg (by simpa using hne)]
  exact opens_cons (by decide)

/-- Behind the name of a field stands no colon, so the name is no label. -/
theorem ne_colon_of_opens {arguments : List Argument} {directives : List Directive}
    {selections : List Selection} : ∀ t, Opens (argumentTokens arguments
      ++ (directiveTokens directives
        ++ encloseTokens .openBrace .closeBrace (selections.map Selection.tokens)))
      EndsSelection t → t ≠ .punctuator .colon := by
  refine opens_enclose (by decide) (opens_directives_append (by decide) ?_)
  cases selections with
  | nil => exact fun t ht => ht.1 .colon (by decide)
  | cons first rest => exact opens_cons (by decide)

/-- A selection is read from its tokens if it is not too deep. -/
theorem reads_selectionWithin {selection : Selection} (h : selection.WellFormed depth) :
    Reads (selectionWithin depth) selection.tokens selection EndsSelection := by
  induction h with
  | @field depth responseName name arguments directives selections hr hn ha hd hopen hs ih =>
      have hnotSpread : ∀ {value : Text}, Token.name value ≠ .punctuator .spread :=
        fun h => by cases h
      rw [Selection.tokens_field, List.append_assoc, List.append_assoc]
      -- a second name is read only behind a colon
      cases responseName with
      | none =>
          refine .skip_false (.ite_neg Bool.false_ne_true (.name ?_)) (opens_cons hnotSpread)
          refine .skip_false (.ite_neg Bool.false_ne_true (.pure_bind ?_)) ne_colon_of_opens
          exact reads_fieldBody ha hd hopen ih fun _ => .pure _ _
      | some label =>
          refine .skip_false (.ite_neg Bool.false_ne_true (.name ?_)) (opens_cons hnotSpread)
          refine .skip (.ite_pos rfl ((reads_label name).bind ?_ fun _ _ => trivial))
          exact reads_fieldBody ha hd hopen ih fun _ => .pure _ _
  | @spread depth name directives hn hon hd =>
      have hdirectives := (reads_directives hd).mono
        (fun t ht => ⟨ht.1 .atSign (by decide), ht.1 .openParen (by decide)⟩ :
          ∀ t, EndsSelection t → t ≠ .punctuator .atSign ∧ t ≠ .punctuator .openParen)
      -- the name of a fragment is told from the word that announces a condition
      have hword : Token.name name ≠ wordToken "on" := fun h => hon (Token.name.inj h)
      rw [Selection.tokens]
      refine .skip (.ite_pos rfl (.skipWord_false (.current_cons fun _ => ?_) (opens_cons hword)))
      exact (reads_fragmentName hon).bind hdirectives.map fun _ _ => trivial
  | @inline depth typeCondition directives selections ht hd hopen hne hs ih =>
      have hset := reads_selectionsOf hopen hne ih
      rw [Selection.tokens_inline, List.append_assoc]
      cases typeCondition with
      | some name =>
          refine .skip (.ite_pos rfl (.skipWord (.current_cons fun _ => .ite_pos rfl ?_)))
          exact (reads_label name).bind (reads_inlineBody (some name) hd hset hne).relax
            fun _ _ => trivial
      | none =>
          have hbody := reads_inlineBody none hd hset hne
          refine .skip (.ite_pos rfl (.skipWord_false ?_ ?_))
          -- without a condition, a directive or a brace comes next, and neither is a name
          · cases directives with
            | nil =>
                obtain ⟨first, rest, hcons⟩ := List.exists_cons_of_ne_nil hne
                rw [hcons] at hbody ⊢
                exact .current_cons fun _ => .ite_neg Bool.false_ne_true (.pure_bind hbody.relax)
            | cons directive rest =>
                exact .current_cons fun _ => .ite_neg Bool.false_ne_true (.pure_bind hbody.relax)
          · refine opens_directives_append (fun h => by cases h) ?_
            obtain ⟨first, rest, hcons⟩ := List.exists_cons_of_ne_nil hne
            rw [hcons]
            exact opens_cons fun h => by cases h

/-- A set of selections is read from its tokens. -/
theorem reads_selections {selections : List Selection}
    (h : Selection.SetWellFormed depth selections) :
    Reads (selectionsWithin depth) (selectionSetTokens selections) selections Anything := by
  rw [selectionSetTokens, Selection.tokensOfAll_eq_map]
  exact reads_selectionsOf h.opened h.nonempty fun selection hs =>
    reads_selectionWithin (h.selections selection hs)

/-- A set of selections starts with a brace. -/
theorem starts_selections {selections : List Selection} (hne : selections ≠ []) :
    Starts (selectionSetTokens selections) fun t => t = .punctuator .openBrace := by
  obtain ⟨first, rest, hcons⟩ := List.exists_cons_of_ne_nil hne
  rw [selectionSetTokens, Selection.tokensOfAll_eq_map, hcons]
  exact ⟨_, _, rfl, rfl⟩

/-! ## Operations and fragments -/

/-- The definition of a variable is read from its tokens. -/
theorem reads_variableDefinition {definition : VariableDefinition} (h : definition.WellFormed) :
    Reads variableDefinition definition.tokens definition IsFresh := by
  have htokens : definition.tokens = descriptionTokens definition.description
      ++ .punctuator .dollar :: .name definition.name :: .punctuator .colon
        :: (definition.type.tokens ++ (defaultTokens definition.defaultValue
          ++ directiveTokens definition.directives)) := by
    simp [VariableDefinition.tokens]
  have hafterType : ∀ t, Opens (defaultTokens definition.defaultValue
      ++ directiveTokens definition.directives) IsFresh t → t ≠ .punctuator .bang := by
    cases definition.defaultValue with
    | none => exact opens_directives (by decide) fun t ht => ht .bang (by decide)
    | some value => exact opens_cons (by decide)
  rw [htokens]
  refine (reads_description _).bind (.expect (.name (.expect ?_))) (opens_cons rfl)
  refine (reads_typeRef h.type).bind ?_ hafterType
  refine (reads_defaultValue h.defaultValue).bind (reads_freshDirectives h.directives).map ?_
  exact opens_directives (by decide) fun t ht => ht .equals (by decide)

/-- Definitions of variables are read from their tokens in brackets. -/
theorem reads_variableDefinitions {definitions : List VariableDefinition}
    (h : ∀ definition ∈ definitions, definition.WellFormed) :
    Reads (optionalBetween .openParen variableDefinition .closeParen)
      (encloseTokens .openParen .closeParen (definitions.map VariableDefinition.tokens))
      definitions (fun t => t ≠ .punctuator .openParen) := by
  have hrow : InRow variableDefinition VariableDefinition.tokens IsFresh .closeParen
      definitions := by
    refine ⟨fun definition hd => reads_variableDefinition (h definition hd), ?_,
      isFresh_punctuator (by decide)⟩
    intro definition _
    simp only [VariableDefinition.tokens, List.append_assoc, List.cons_append]
    exact starts_described definition.description
      (fun literal => ⟨token_ne_punctuator literal _, isFresh_string literal⟩)
      ⟨by decide, isFresh_punctuator (by decide)⟩
  exact (hrow.reads_optionalBetween .openParen).mono fun _ ht _ => ht

section

variable {directives : List Directive} {selections : List Selection}

/-- Directives with a set of selections behind them. -/
theorem reads_directedSelections
    (hd : ∀ directive ∈ directives, directive.WellFormed false maximalDepth)
    (hs : Selection.SetWellFormed maximalDepth selections) {β : Type}
    {g : List Directive → List Selection → β} :
    Reads (do
        let directives ← Parser.directives (valueWithin false maximalDepth)
        let selections ← Parser.selections
        pure (g directives selections))
      (directiveTokens directives ++ selectionSetTokens selections) (g directives selections)
      Anything := by
  refine (reads_directives hd).bind (reads_selections hs).map ?_
  intro t ht
  rw [(starts_selections hs.nonempty).opens ht]
  exact ⟨by decide, by decide⟩

/-- What stands behind the word of an operation or the name of a fragment. -/
theorem opens_directedSelections (hs : Selection.SetWellFormed maximalDepth selections)
    {next property : Token → Prop} (hd : property (.punctuator .atSign))
    (hb : property (.punctuator .openBrace)) :
    ∀ t, Opens (directiveTokens directives ++ selectionSetTokens selections) next t →
      property t := by
  refine opens_directives_append hd fun t ht => ?_
  rw [(starts_selections hs.nonempty).opens ht]
  exact hb

end

theorem ofKeyword?_operation (kind : OperationKind) :
    OperationKind.ofKeyword? kind.keyword = some kind := by
  cases kind <;> rfl

theorem reads_operationKind (kind : OperationKind) :
    Reads operationKind [.name kind.keyword] kind Anything := by
  refine .current_cons fun _ => .name ?_
  rw [ofKeyword?_operation]
  exact .pure kind _

/-- What stands between the word of an operation and its selections, without its name. -/
theorem reads_operationBody {operation : Operation} (h : operation.WellFormed) :
    Reads (do
        let variableDefinitions ← optionalBetween .openParen variableDefinition .closeParen
        let directives ← Parser.directives (valueWithin false maximalDepth)
        let selections ← Parser.selections
        pure ({ operation with variableDefinitions, directives, selections } : Operation))
      (encloseTokens .openParen .closeParen
          (operation.variableDefinitions.map VariableDefinition.tokens)
        ++ (directiveTokens operation.directives ++ selectionSetTokens operation.selections))
      operation Anything :=
  (reads_variableDefinitions h.variableDefinitions).bind
    (reads_directedSelections h.directives h.selections)
    (opens_directedSelections h.selections (by decide) (by decide))

/-- An operation without a name goes on with a punctuator. -/
theorem starts_operationBody {operation : Operation} (h : operation.WellFormed) :
    Starts (encloseTokens .openParen .closeParen
        (operation.variableDefinitions.map VariableDefinition.tokens)
      ++ (directiveTokens operation.directives ++ selectionSetTokens operation.selections))
      fun t => ∃ p, t = .punctuator p := by
  cases operation.variableDefinitions with
  | cons definition rest => exact ⟨_, _, rfl, _, rfl⟩
  | nil =>
      cases operation.directives with
      | cons directive rest => exact ⟨_, _, rfl, _, rfl⟩
      | nil => exact (starts_selections h.selections.nonempty).mono fun t ht => ⟨_, ht⟩

/-- An operation is read from its tokens behind the description. -/
theorem reads_operation {operation : Operation} (h : operation.WellFormed) :
    Reads (Parser.operation operation.description)
      (.name operation.kind.keyword :: (operation.headTokens
        ++ selectionSetTokens operation.selections))
      operation Anything := by
  have hbody := reads_operationBody h
  have hstarts := starts_operationBody h
  rw [Operation.headTokens, List.append_assoc, List.append_assoc]
  obtain ⟨description, kind, name, definitions, directives, selections⟩ := operation
  refine (reads_operationKind kind).bind ?_ fun _ _ => trivial
  cases name with
  | none =>
      refine .current_starts hstarts fun t _ ht => ?_
      obtain ⟨p, rfl⟩ := ht
      exact .pure_bind hbody
  | some name => exact .current_cons fun _ => (reads_label name).bind hbody fun _ _ => trivial

/-- A fragment is read from its tokens behind the keyword. -/
theorem reads_fragment {fragment : Fragment} (h : fragment.WellFormed) :
    Reads (Parser.fragment fragment.description)
      (.name fragment.name :: wordToken "on" :: .name fragment.typeCondition
        :: (directiveTokens fragment.directives ++ selectionSetTokens fragment.selections))
      fragment Anything :=
  (reads_fragmentName h.nameNotOn).bind
    (.expectWord (.name (reads_directedSelections h.directives h.selections))) fun _ _ => trivial

end SchemaStitch.Parser

import SchemaStitch.Document.Tokens

/-! # The tokens of nested nodes

    Values and selections are nested, so their tokens are defined by recursion over lists
    of them.  Here these recursions are maps, and the parts of selections and operations
    that may be absent have names of their own. -/

namespace SchemaStitch

/-! ## Values -/

/-- The tokens of a list are those of its items in brackets. -/
theorem Value.itemTokens_eq_flatten (items : List Value) :
    Value.itemTokens items = (items.map Value.tokens).flatten := by
  induction items with
  | nil => rfl
  | cons item rest ih => rw [Value.itemTokens, ih, List.map_cons, List.flatten_cons]

/-- The tokens of a name with a value behind it. -/
def labelledTokens (field : Text × Value) : List Token :=
  .name field.1 :: .punctuator .colon :: field.2.tokens

/-- The tokens of an object are those of its labelled values in braces. -/
theorem Value.fieldTokens_eq_flatten (fields : List (Text × Value)) :
    Value.fieldTokens fields = (fields.map labelledTokens).flatten := by
  induction fields with
  | nil => rfl
  | cons field rest ih => rw [Value.fieldTokens, ih]; rfl

/-! ## Selections -/

/-- The tokens of the name of a selected field. -/
def tokensOfLabel (responseName : Option Text) (name : Text) : List Token :=
  match responseName with
  | none => [.name name]
  | some responseName => [.name responseName, .punctuator .colon, .name name]

theorem Selection.tokensOfAll_eq_map (selections : List Selection) :
    Selection.tokensOfAll selections = selections.map Selection.tokens := by
  induction selections with
  | nil => rfl
  | cons selection rest ih => rw [Selection.tokensOfAll, ih, List.map_cons]

/-- A selected field is its label, arguments, directives and the selections below it. -/
theorem Selection.tokens_field (responseName : Option Text) (name : Text)
    (arguments : List Argument) (directives : List Directive) (selections : List Selection) :
    (Selection.field responseName name arguments directives selections).tokens
      = tokensOfLabel responseName name ++ argumentTokens arguments ++ directiveTokens directives
        ++ encloseTokens .openBrace .closeBrace (selections.map Selection.tokens) := by
  rw [← Selection.tokensOfAll_eq_map]
  cases responseName with
  | none => rw [Selection.tokens]; rfl
  | some label => rw [Selection.tokens]; rfl

/-- The tokens of a condition on the type of a set of selections. -/
def tokensOfCondition (typeCondition : Option Text) : List Token :=
  match typeCondition with
  | none => []
  | some name => [wordToken "on", .name name]

/-- An inline fragment is three dots, its condition, directives and selections. -/
theorem Selection.tokens_inline (typeCondition : Option Text) (directives : List Directive)
    (selections : List Selection) :
    (Selection.inline typeCondition directives selections).tokens
      = .punctuator .spread :: (tokensOfCondition typeCondition ++ directiveTokens directives
        ++ encloseTokens .openBrace .closeBrace (selections.map Selection.tokens)) := by
  rw [← Selection.tokensOfAll_eq_map]
  cases typeCondition with
  | none => rw [Selection.tokens]; rfl
  | some name => rw [Selection.tokens]; rfl

/-! ## Operations -/

namespace Operation

/-- The tokens between the word of an operation and its selections. -/
def headTokens (operation : Operation) : List Token :=
  operation.name.toList.map Token.name
    ++ encloseTokens .openParen .closeParen
      (operation.variableDefinitions.map VariableDefinition.tokens)
    ++ directiveTokens operation.directives

/-- Whether an operation is a query with nothing but selections. -/
def isShorthand (operation : Operation) : Bool :=
  operation.kind = .query && operation.description.isNone && operation.headTokens.isEmpty

/-- A query with nothing but selections holds nothing else. -/
theorem eq_of_isShorthand {operation : Operation} (h : operation.isShorthand = true) :
    operation = ⟨none, .query, none, [], [], operation.selections⟩ := by
  obtain ⟨description, kind, name, definitions, directives, selections⟩ := operation
  simp only [isShorthand, Bool.and_eq_true, decide_eq_true_eq, Option.isNone_iff_eq_none,
    List.isEmpty_iff, headTokens, List.append_eq_nil_iff, List.map_eq_nil_iff,
    Option.toList_eq_nil_iff] at h
  obtain ⟨⟨rfl, rfl⟩, ⟨rfl, hdefinitions⟩, hdirectives⟩ := h
  have hnone : definitions = [] := by
    cases definitions with
    | nil => rfl
    | cons first rest => exact absurd hdefinitions (List.cons_ne_nil _ _)
  have hempty : directives = [] := by
    cases directives with
    | nil => rfl
    | cons first rest => exact absurd hdirectives (List.cons_ne_nil _ _)
  rw [hnone, hempty]

/-- An operation is its description, keyword, head and selections; a shorthand query has no
    keyword. -/
theorem tokens_eq (operation : Operation) :
    operation.tokens = descriptionTokens operation.description
      ++ (if operation.isShorthand then [] else [.name operation.kind.keyword])
      ++ operation.headTokens ++ selectionSetTokens operation.selections :=
  rfl

/-- A shorthand query is its selections alone. -/
theorem tokens_of_isShorthand {operation : Operation} (h : operation.isShorthand = true) :
    operation.tokens = selectionSetTokens operation.selections := by
  rw [tokens_eq, if_pos h]
  rw [eq_of_isShorthand h]
  rfl

end Operation

end SchemaStitch

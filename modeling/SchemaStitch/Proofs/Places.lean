import SchemaStitch.Proofs.Reading

/-! # Where tokens stand

    What a parser does depends on the tokens alone and not on where they stand in the text.
    Two parsers are alike (`Parser.Alike`) if, given lexemes with the same tokens, they yield
    the same value and leave the same tokens, or fail with the same fault.  Every parser is
    like itself, so texts with the same tokens are the same document or are refused alike
    (`Document.parse_congr`). -/

namespace SchemaStitch

namespace Parser

variable {α β : Type}

/-- Outcomes that differ in places only. -/
def SameOutcome (first second : Except (SyntaxFault × Nat) (α × List Lexeme)) : Prop :=
  match first, second with
  | .ok (a, rest), .ok (b, others) => a = b ∧ rest.map Lexeme.token = others.map Lexeme.token
  | .error fault, .error other => fault.1 = other.1
  | _, _ => False

/-- Two parsers that do the same for the same tokens. -/
def Alike (p q : Parser α) : Prop :=
  ∀ lexemes others, lexemes.map Lexeme.token = others.map Lexeme.token →
    SameOutcome (p lexemes) (q others)

/-- A parser that does not depend on where tokens stand. -/
abbrev Placeless (p : Parser α) : Prop :=
  Alike p p

namespace Alike

variable {p q : Parser α} {f g : α → Parser β}

/-- A parser that reads nothing yields the same value anywhere. -/
theorem pure (a : α) : Alike (pure a) (pure a) :=
  fun _ _ h => ⟨rfl, h⟩

/-- The same fault may be found at different places. -/
theorem throw (fault : SyntaxFault) (start offset : Nat) :
    Alike (throw (fault, start) : Parser α) (throw (fault, offset)) :=
  fun _ _ _ => rfl

/-- Parsers that are alike, one after the other, are alike together. -/
theorem bind (hp : Alike p q) (hf : ∀ a, Alike (f a) (g a)) : Alike (p >>= f) (q >>= g) := by
  intro lexemes others h
  have hfirst := hp lexemes others h
  show SameOutcome (p lexemes >>= fun read => f read.1 read.2)
    (q others >>= fun read => g read.1 read.2)
  match p lexemes, q others, hfirst with
  | .ok (a, rest), .ok (_, behind), ⟨rfl, hrest⟩ => exact hf a rest behind hrest
  | .error _, .error _, hfault => exact hfault

/-- What is done with a value that was read does not change what parsers have in common. -/
theorem map {g : α → β} (hp : Alike p q) :
    Alike (p >>= fun a => Pure.pure (g a)) (q >>= fun a => Pure.pure (g a)) :=
  hp.bind fun a => .pure (g a)

/-- A choice that does not look at the tokens is made alike. -/
theorem ite {c : Prop} [Decidable c] {p' q' : Parser α} (ht : Alike p q) (hf : Alike p' q') :
    Alike (if c then p else p') (if c then q else q') := by
  split
  · exact ht
  · exact hf

/-- Lexemes with the same tokens are both at an end, or both start with the same token. -/
theorem cases_current {lexemes others : List Lexeme}
    (h : lexemes.map Lexeme.token = others.map Lexeme.token) :
    (∃ fault i j, current lexemes = .error (fault, i) ∧ current others = .error (fault, j))
      ∨ ∃ t i j, current lexemes = .ok ((t, i), lexemes)
        ∧ current others = .ok ((t, j), others) := by
  match lexemes, others, h with
  | [], [], _ => exact .inl ⟨_, _, _, rfl, rfl⟩
  | first :: _, second :: _, h =>
      have htoken : first.token = second.token := (List.cons.inj h).1
      cases hfirst : first.token with
      | error fault =>
          rw [current, hfirst, current, ← htoken, hfirst]
          exact .inl ⟨_, _, _, rfl, rfl⟩
      | ok t =>
          rw [current_eq hfirst, current_eq (htoken.symm.trans hfirst)]
          exact .inr ⟨_, _, _, rfl, rfl⟩

/-- Looking at the current token tells the same. -/
theorem current_bind {f g : Token × Nat → Parser β}
    (h : ∀ t start offset, Alike (f (t, start)) (g (t, offset))) :
    Alike (current >>= f) (current >>= g) := by
  intro lexemes others htokens
  show SameOutcome (current lexemes >>= fun read => f read.1 read.2)
    (current others >>= fun read => g read.1 read.2)
  rcases cases_current htokens with ⟨fault, i, j, h1, h2⟩ | ⟨t, i, j, h1, h2⟩
  · rw [h1, h2]
    rfl
  · rw [h1, h2]
    exact h t i j lexemes others htokens

/-- Looking past the current token tells the next one, and where it stands makes no difference. -/
theorem following_bind {f g : Token × Nat → Parser β}
    (h : ∀ t start offset, Alike (f (t, start)) (g (t, offset))) :
    Alike (following >>= f) (following >>= g) := by
  intro lexemes others htokens
  match lexemes, others, htokens with
  | [], [], htokens => exact current_bind h [] [] htokens
  | [first], [second], htokens => exact current_bind h [first] [second] htokens
  | [_], _ :: _ :: _, htokens => cases (List.cons.inj htokens).2
  | _ :: _ :: _, [_], htokens => cases (List.cons.inj htokens).2
  | first :: next :: rest, second :: after :: behind, htokens =>
      show SameOutcome
        ((current (next :: rest)).map (fun found => (found.1, first :: next :: rest))
          >>= fun read => f read.1 read.2)
        ((current (after :: behind)).map (fun found => (found.1, second :: after :: behind))
          >>= fun read => g read.1 read.2)
      rcases cases_current (List.cons.inj htokens).2 with ⟨fault, i, j, h1, h2⟩ | ⟨t, i, j, h1, h2⟩
      · rw [h1, h2]
        rfl
      · rw [h1, h2]
        exact h t i j _ _ htokens

/-- Going on to the next token is the same for the same tokens. -/
theorem advance : Alike advance advance := by
  intro lexemes others htokens
  match lexemes, others, htokens with
  | [], [], htokens => exact ⟨rfl, htokens⟩
  | [_], [_], htokens => exact ⟨rfl, htokens⟩
  | [_], _ :: _ :: _, htokens => cases (List.cons.inj htokens).2
  | _ :: _ :: _, [_], htokens => cases (List.cons.inj htokens).2
  | first :: next :: rest, second :: after :: behind, htokens =>
      have hbehind := (List.cons.inj htokens).2
      show SameOutcome ((current (next :: rest)).map fun found => ((), found.2))
        ((current (after :: behind)).map fun found => ((), found.2))
      rcases cases_current hbehind with ⟨fault, i, j, h1, h2⟩ | ⟨t, i, j, h1, h2⟩
      · rw [h1, h2]
        rfl
      · rw [h1, h2]
        exact ⟨rfl, hbehind⟩

theorem failHere (fault : Token → SyntaxFault) :
    Alike (failHere fault : Parser α) (failHere fault) :=
  .current_bind fun t => .throw (fault t)

end Alike

/-! ## Single tokens -/

/-- Whether a punctuator comes next is seen from its token. -/
theorem placeless_skip (p : Punctuator) : Placeless (skip p) :=
  .current_bind fun _ _ _ => .ite (.bind .advance fun _ => .pure true) (.pure false)

theorem placeless_expect (p : Punctuator) : Placeless (expect p) :=
  .bind (placeless_skip p) fun _ => .ite (.failHere _) (.pure _)

theorem placeless_skipWord (word : Text) : Placeless (skipWord word) :=
  .current_bind fun _ _ _ => .ite (.bind .advance fun _ => .pure true) (.pure false)

/-- A word that has to come next is told by its token. -/
theorem placeless_expectWord (word : Text) : Placeless (expectWord word) :=
  .bind (placeless_skipWord word) fun _ => .ite (.failHere _) (.pure _)

/-- A name is what its token says. -/
theorem placeless_name : Placeless name := by
  refine .current_bind fun t start offset => ?_
  cases t with
  | name value => exact .bind .advance fun _ => .pure value
  | _ => exact .failHere _

/-! ## Repetition -/

section

variable {item : Parser α} {atEnd : Parser Bool}

/-- Reading items up to an end does not depend on places if the end and each item do not. -/
theorem placeless_itemsWithin (he : Placeless atEnd) (hi : Placeless item) (bound : Nat) :
    Placeless (itemsWithin atEnd item bound) := by
  induction bound with
  | zero => exact .failHere _
  | succ bound ih => exact .bind he fun _ => .ite (.pure _) (.bind hi fun _ => .map ih)

theorem placeless_itemsUntil (he : Placeless atEnd) (hi : Placeless item) :
    Placeless (itemsUntil atEnd item) := by
  intro lexemes others h
  have hlength : lexemes.length = others.length := by
    rw [← List.length_map Lexeme.token, h, List.length_map]
  rw [itemsUntil, itemsUntil, hlength]
  exact placeless_itemsWithin he hi _ lexemes others h

/-- Reading at least one item up to an end does not depend on places either. -/
theorem placeless_someUntil (he : Placeless atEnd) (hi : Placeless item) :
    Placeless (someUntil atEnd item) :=
  .bind hi fun _ => .map (placeless_itemsUntil he hi)

theorem placeless_between (opening closing : Punctuator) (hi : Placeless item) :
    Placeless (between opening item closing) :=
  .bind (placeless_expect _) fun _ => placeless_itemsUntil (placeless_skip _) hi

theorem placeless_someBetween (opening closing : Punctuator) (hi : Placeless item) :
    Placeless (someBetween opening item closing) :=
  .bind (placeless_expect _) fun _ => placeless_someUntil (placeless_skip _) hi

/-- Items between brackets that may be missing are read alike wherever the brackets stand. -/
theorem placeless_optionalBetween (opening closing : Punctuator) (hi : Placeless item) :
    Placeless (optionalBetween opening item closing) :=
  .bind (placeless_skip _) fun _ => .ite (placeless_someUntil (placeless_skip _) hi) (.pure _)

/-- Items with a separator between them are read alike wherever the separators stand. -/
theorem placeless_separated (separator : Punctuator) (hi : Placeless item) :
    Placeless (separated separator item) :=
  .bind (placeless_skip _) fun _ => .bind hi fun _ =>
    .map (placeless_itemsUntil (.map (placeless_skip _)) hi)

end

/-! ## Types and values -/

theorem placeless_namedType : Placeless namedType :=
  .bind placeless_name fun _ => .map (placeless_skip _)

/-- A type is read alike wherever it stands, as deep as lists may go. -/
theorem placeless_typeRefWithin (depth : Nat) : Placeless (typeRefWithin depth) := by
  induction depth with
  | zero => exact .bind (placeless_skip _) fun _ => .ite (.failHere _) placeless_namedType
  | succ depth ih =>
      refine .bind (placeless_skip _) fun _ => .ite ?_ placeless_namedType
      exact .bind ih fun _ => .bind (placeless_expect _) fun _ => .map (placeless_skip _)

theorem placeless_typeRef : Placeless typeRef :=
  placeless_typeRefWithin _

/-- A variable, or the refusal of one in a constant value, does not depend on its place. -/
theorem placeless_variableRef (constant : Bool) :
    Placeless (variableRef constant) := by
  refine .current_bind fun _ _ _ => .bind (placeless_expect _) fun _ => ?_
  cases constant with
  | true =>
      refine .current_bind fun t _ _ => ?_
      cases t <;> exact .throw _ _ _
  | false => exact .map placeless_name

/-- A value is read alike if lists and objects are. -/
theorem placeless_valueWith (constant : Bool) {list object : Parser Value} (hl : Placeless list)
    (ho : Placeless object) : Placeless (valueWith constant list object) := by
  refine .current_bind fun t start offset => ?_
  have hleaf (value : Value) : Placeless (do advance; pure value) :=
    .bind .advance fun _ => .pure value
  cases t with
  | punctuator p =>
      cases p with
      | openBracket => exact hl
      | openBrace => exact ho
      | dollar => exact placeless_variableRef constant
      | _ => exact .failHere _
  | endOfText => exact .failHere _
  | _ => exact hleaf _

/-- A value behind a name and a colon is read alike if values are. -/
theorem placeless_labelled {value : Parser Value} (hv : Placeless value) :
    Placeless (labelled value) :=
  .bind placeless_name fun _ => .bind (placeless_expect _) fun _ => .map hv

/-- Values of any depth are read alike wherever they stand. -/
theorem placeless_valueWithin (constant : Bool) (depth : Nat) :
    Placeless (valueWithin constant depth) := by
  induction depth with
  | zero => exact placeless_valueWith constant (.failHere _) (.failHere _)
  | succ depth ih =>
      refine placeless_valueWith constant (.map (placeless_between _ _ ih)) (.map ?_)
      exact placeless_between _ _ (placeless_labelled ih)

theorem placeless_constantValue : Placeless constantValue :=
  placeless_valueWithin _ _

theorem placeless_defaultValue : Placeless defaultValue :=
  .bind (placeless_skip _) fun _ => .ite (.map placeless_constantValue) (.pure _)

section

variable {value : Parser Value}

/-- Arguments are read alike if values are. -/
theorem placeless_arguments (hv : Placeless value) : Placeless (arguments value) :=
  placeless_optionalBetween _ _ (.map (placeless_labelled hv))

/-- Directives are read alike if values are. -/
theorem placeless_directives (hv : Placeless value) : Placeless (directives value) :=
  placeless_itemsUntil (.map (placeless_skip _))
    (.bind placeless_name fun _ => .map (placeless_arguments hv))

end

theorem placeless_constantDirectives : Placeless constantDirectives :=
  placeless_directives placeless_constantValue

/-- A description is told from what follows by its token. -/
theorem placeless_description : Placeless description := by
  refine .current_bind fun t start offset => ?_
  cases t with
  | string value => exact .bind .advance fun _ => .pure _
  | blockString value => exact .bind .advance fun _ => .pure _
  | _ => exact .pure none

/-! ## Members -/

/-- An argument definition or input field is read alike wherever it stands. -/
theorem placeless_inputValue : Placeless inputValue := by
  refine .bind placeless_description fun _ => .bind placeless_name fun _ => ?_
  refine .bind (placeless_expect _) fun _ => .bind placeless_typeRef fun _ => ?_
  exact .bind placeless_defaultValue fun _ => .map placeless_constantDirectives

theorem placeless_argumentDefinitions : Placeless argumentDefinitions :=
  placeless_optionalBetween _ _ placeless_inputValue

/-- A field is read alike wherever it stands. -/
theorem placeless_field : Placeless field := by
  refine .bind placeless_description fun _ => .bind placeless_name fun _ => ?_
  refine .bind placeless_argumentDefinitions fun _ => .bind (placeless_expect _) fun _ => ?_
  exact .bind placeless_typeRef fun _ => .map placeless_constantDirectives

/-- An enum value is read alike, or its reserved name is refused alike. -/
theorem placeless_enumValue : Placeless enumValue := by
  refine .bind placeless_description fun _ => .current_bind fun _ _ _ => .ite ?_ ?_
  · exact .bind (.failHere _) fun _ => .bind placeless_name fun _ =>
      .map placeless_constantDirectives
  · exact .bind placeless_name fun _ => .map placeless_constantDirectives

/-- A member of a type of any kind is read alike wherever it stands. -/
theorem placeless_member (kind : BlockKind) : Placeless (member kind) := by
  cases kind with
  | object => exact .map placeless_field
  | interface => exact .map placeless_field
  | input => exact .map placeless_inputValue
  | enum => exact .map placeless_enumValue

theorem placeless_members (kind : BlockKind) : Placeless (members kind) :=
  .map (placeless_optionalBetween _ _ (placeless_member kind))

/-! ## Type definitions -/

/-- The interfaces of a type are read alike wherever they stand. -/
theorem placeless_interfaces : Placeless interfaces :=
  .bind (placeless_skipWord _) fun _ => .ite (placeless_separated _ placeless_name) (.pure _)

/-- A type with members is read alike wherever it stands. -/
theorem placeless_block (kind : BlockKind) (description : Option StringLiteral) :
    Placeless (block kind description) := by
  have hbehind (name : Text) (interfaces : List Text) : Placeless (do
      let directives ← constantDirectives
      let members ← members kind
      pure { kind, description, name, interfaces, directives, members : Block }) :=
    .bind placeless_constantDirectives fun _ => .map (placeless_members kind)
  refine .bind placeless_name fun name => .ite ?_ (hbehind name [])
  exact .bind placeless_interfaces fun interfaces => hbehind name interfaces

theorem placeless_scalarType (description : Option StringLiteral) :
    Placeless (scalarType description) :=
  .bind placeless_name fun _ => .map placeless_constantDirectives

/-- A union is read alike wherever it stands. -/
theorem placeless_unionType (description : Option StringLiteral) :
    Placeless (unionType description) :=
  .bind placeless_name fun _ => .bind placeless_constantDirectives fun _ =>
    .bind (placeless_skip _) fun _ => .ite (.map (placeless_separated _ placeless_name)) (.pure _)

/-- The parser that a keyword chooses for a type does not depend on places. -/
theorem placeless_typeDefinition {word : Text} {p : Option StringLiteral → Parser TypeDefinition}
    (h : typeDefinition? word = some p) (description : Option StringLiteral) :
    Placeless (p description) := by
  have hblock (kind : BlockKind) :
      Placeless (do pure (.block (← block kind description)) : Parser TypeDefinition) :=
    .map (placeless_block kind description)
  rw [typeDefinition?] at h
  split at h
  · rw [← Option.some.inj h]
    exact .map (placeless_scalarType description)
  · split at h
    · rw [← Option.some.inj h]
      exact hblock .object
    · split at h
      · rw [← Option.some.inj h]
        exact hblock .interface
      · split at h
        · rw [← Option.some.inj h]
          exact .map (placeless_unionType description)
        · split at h
          · rw [← Option.some.inj h]
            exact hblock .enum
          · split at h
            · rw [← Option.some.inj h]
              exact hblock .input
            · cases h

/-! ## Schema declarations and directives -/

/-- The kind of an operation is told by a word. -/
theorem placeless_operationKind : Placeless operationKind := by
  refine .current_bind fun t start offset => .bind placeless_name fun word => ?_
  cases OperationKind.ofKeyword? word with
  | none => exact .throw _ _ _
  | some kind => exact .pure kind

theorem placeless_rootOperation : Placeless rootOperation :=
  .bind placeless_operationKind fun _ => .bind (placeless_expect _) fun _ => .map placeless_name

theorem placeless_schemaBlock (description : Option StringLiteral) :
    Placeless (schemaBlock description) :=
  .bind placeless_constantDirectives fun _ =>
    .map (placeless_someBetween _ _ placeless_rootOperation)

/-- A place where a directive may stand is told by a word. -/
theorem placeless_directiveLocation : Placeless directiveLocation := by
  refine .current_bind fun t start offset => .bind placeless_name fun word => ?_
  cases DirectiveLocation.ofKeyword? word with
  | none => exact .throw _ _ _
  | some location => exact .pure location

/-- The definition of a directive is read alike wherever it stands. -/
theorem placeless_directiveDefinition (description : Option StringLiteral) :
    Placeless (directiveDefinition description) := by
  refine .bind (placeless_expect _) fun _ => .bind placeless_name fun _ => ?_
  refine .bind placeless_argumentDefinitions fun _ => .bind (placeless_skipWord _) fun _ => ?_
  exact .bind (placeless_expectWord _) fun _ =>
    .map (placeless_separated _ placeless_directiveLocation)

/-! ## Extensions -/

theorem placeless_schemaExtension : Placeless schemaExtension :=
  .bind placeless_constantDirectives fun _ =>
    .bind (placeless_optionalBetween _ _ placeless_rootOperation) fun _ =>
      .ite (.failHere _) (.pure _)

/-- An extension is read alike if the type behind it is, and an empty one is refused alike. -/
theorem placeless_typeExtension {definition : Parser TypeDefinition}
    (hd : Placeless definition) :
    Placeless (typeExtension definition) :=
  .bind hd fun _ => .ite (.pure _) (.failHere _)

/-- What is extended is told by the word behind the keyword. -/
theorem placeless_extension : Placeless extension := by
  refine .following_bind fun t start offset => ?_
  cases t with
  | name word =>
      refine .ite (.bind .advance fun _ => .bind .advance fun _ => placeless_schemaExtension) ?_
      cases hp : typeDefinition? word with
      | none => exact .throw _ _ _
      | some p =>
          refine .bind .advance fun _ => .bind .advance fun _ => ?_
          exact placeless_typeExtension (placeless_typeDefinition hp none)
  | _ => exact .throw _ _ _

/-! ## Operations and fragments -/

theorem placeless_someName : Placeless (some <$> name) :=
  .map placeless_name

theorem placeless_fragmentName : Placeless fragmentName :=
  .current_bind fun _ _ _ => .ite (.failHere _) placeless_name

section

variable {value : Parser Value} {selections : Parser (List Selection)}

/-- With one name or two, the selected field is made of what was read. -/
theorem placeless_namedField (first : Text) (second : Option Text) (arguments : List Argument)
    (directives : List Directive) (inner : List Selection) : Placeless (match second with
      | none => pure (.field none first arguments directives inner)
      | some name => pure (.field (some first) name arguments directives inner) :
        Parser Selection) := by
  cases second with
  | none => exact .pure _
  | some name => exact .pure _

/-- What may stand behind the names of a selected field is read alike. -/
theorem placeless_behindNames (hv : Placeless value) (hs : Placeless selections) (first : Text)
    (second : Option Text) : Placeless (do
      let arguments ← arguments value
      let directives ← directives value
      let inner ← if (← current).1 = .punctuator .openBrace then selections else pure []
      match second with
      | none => pure (.field none first arguments directives inner)
      | some name => pure (.field (some first) name arguments directives inner) :
        Parser Selection) := by
  refine .bind (placeless_arguments hv) fun arguments => ?_
  refine .bind (placeless_directives hv) fun directives => .current_bind fun _ _ _ => ?_
  refine .ite ?_ (placeless_namedField first second arguments directives [])
  exact .bind hs fun inner => placeless_namedField first second arguments directives inner

/-- A selected field is read alike if the selections below it are. -/
theorem placeless_selectedField (hv : Placeless value) (hs : Placeless selections) :
    Placeless (selectedField value selections) := by
  refine .bind placeless_name fun first => .bind (placeless_skip _) fun _ => ?_
  refine .ite ?_ (placeless_behindNames hv hs first none)
  exact .bind placeless_someName fun second => placeless_behindNames hv hs first second

/-- A fragment spread or an inline fragment is read alike if the selections below it are. -/
theorem placeless_selectedFragment (hv : Placeless value) (hs : Placeless selections) :
    Placeless (selectedFragment value selections) := by
  have hinline (condition : Option Text) : Placeless (do
      let directives ← directives value
      pure (.inline condition directives (← selections)) : Parser Selection) :=
    .bind (placeless_directives hv) fun _ => .map hs
  refine .bind (placeless_skipWord _) fun conditional => .current_bind fun t start offset => ?_
  have hset : Placeless (if conditional = true then do
        let condition ← some <$> name
        let directives ← directives value
        pure (.inline condition directives (← selections))
      else do
        let directives ← directives value
        pure (.inline none directives (← selections)) : Parser Selection) :=
    .ite (.bind placeless_someName fun condition => hinline condition) (hinline none)
  cases conditional with
  | true => exact hset
  | false =>
      cases t with
      | name word => exact .bind placeless_fragmentName fun _ => .map (placeless_directives hv)
      | _ => exact hset

end

/-- Selections are read alike at any depth. -/
theorem placeless_selectionsWithin (depth : Nat) :
    Placeless (selectionsWithin depth) := by
  induction depth with
  | zero => exact .failHere _
  | succ depth ih =>
      have hvalue := placeless_valueWithin false depth
      refine placeless_someBetween _ _ (.bind (placeless_skip _) fun _ => .ite ?_ ?_)
      · exact placeless_selectedFragment hvalue ih
      · exact placeless_selectedField hvalue ih

theorem placeless_selections : Placeless selections :=
  placeless_selectionsWithin _

/-- The definition of a variable is read alike wherever it stands. -/
theorem placeless_variableDefinition : Placeless variableDefinition := by
  refine .bind placeless_description fun _ => .bind (placeless_expect _) fun _ => ?_
  refine .bind placeless_name fun _ => .bind (placeless_expect _) fun _ => ?_
  refine .bind placeless_typeRef fun _ => ?_
  exact .bind placeless_defaultValue fun _ => .map placeless_constantDirectives

/-- An operation is read alike wherever it stands. -/
theorem placeless_operation (description : Option StringLiteral) :
    Placeless (operation description) := by
  have hbehind (kind : OperationKind) (label : Option Text) : Placeless (do
      let variableDefinitions ← optionalBetween .openParen variableDefinition .closeParen
      let directives ← directives (valueWithin false maximalDepth)
      let selections ← selections
      pure { description, kind, name := label, variableDefinitions, directives, selections :
        Operation }) :=
    .bind (placeless_optionalBetween _ _ placeless_variableDefinition) fun _ =>
      .bind (placeless_directives (placeless_valueWithin _ _)) fun _ => .map placeless_selections
  refine .bind placeless_operationKind fun kind => .current_bind fun t start offset => ?_
  cases t with
  | name word => exact .bind placeless_someName fun label => hbehind kind label
  | _ => exact hbehind kind none

/-- A fragment is read alike wherever it stands. -/
theorem placeless_fragment (description : Option StringLiteral) :
    Placeless (fragment description) := by
  refine .bind placeless_fragmentName fun _ => .bind (placeless_expectWord _) fun _ => ?_
  refine .bind placeless_name fun _ => ?_
  exact .bind (placeless_directives (placeless_valueWithin _ _)) fun _ => .map placeless_selections

/-! ## Documents -/

/-- The parser that a keyword chooses for a definition does not depend on places. -/
theorem placeless_describedDefinition {word : Text} {p : Option StringLiteral → Parser Definition}
    (h : describedDefinition? word = some p) (description : Option StringLiteral) :
    Placeless (p description) := by
  rw [describedDefinition?] at h
  split at h
  · rw [← Option.some.inj h]
    exact .bind .advance fun _ => .map (placeless_schemaBlock description)
  · split at h
    · rw [← Option.some.inj h]
      exact .bind .advance fun _ => .map (placeless_directiveDefinition description)
    · split at h
      · rw [← Option.some.inj h]
        exact .bind .advance fun _ => .map (placeless_fragment description)
      · split at h
        · rw [← Option.some.inj h]
          exact .map (placeless_operation description)
        · obtain ⟨q, hq, rfl⟩ := Option.map_eq_some_iff.mp h
          exact .bind .advance fun _ => .map (placeless_typeDefinition hq description)

/-- What a definition starts with decides how it is read, or what is wrong with it; a fault is at
    the start of the definition or at its first token, wherever these are. -/
theorem placeless_opened (described : Bool) (opening : Token) (start offset start' offset' : Nat) :
    Alike (match opening with
      | .punctuator .openBrace =>
          if described then throw (.descriptionOnShorthand, start)
          else do pure (.operation (← shorthandQuery))
      | .name word =>
          match describedDefinition? word with
          | some definition => do definition (← description)
          | none =>
              if described then throw (.descriptionOnOther, start)
              else if word = "extend" then extension
              else throw (.unexpected opening, offset)
      | _ => throw (.unexpected opening, offset))
    (match opening with
      | .punctuator .openBrace =>
          if described then throw (.descriptionOnShorthand, start')
          else do pure (.operation (← shorthandQuery))
      | .name word =>
          match describedDefinition? word with
          | some definition => do definition (← description)
          | none =>
              if described then throw (.descriptionOnOther, start')
              else if word = "extend" then extension
              else throw (.unexpected opening, offset')
      | _ => throw (.unexpected opening, offset')) := by
  split
  · exact .ite (.throw _ _ _) (.map (.map placeless_selections))
  · split
    · next hp => exact .bind placeless_description fun _ => placeless_describedDefinition hp _
    · exact .ite (.throw _ _ _) (.ite placeless_extension (.throw _ _ _))
  · exact .throw _ _ _

/-- A definition is read alike wherever it stands. -/
theorem placeless_definition : Placeless definition := by
  refine .current_bind fun first start offset => .ite ?_ (placeless_opened _ first start start _ _)
  exact .following_bind fun opening i j => placeless_opened _ opening start i offset j

theorem placeless_atEnd : Placeless atEnd :=
  .current_bind fun _ _ _ => .pure _

end Parser

open SchemaStitch.Parser

/-- Two texts that are documents with the same definitions, or that are refused with the same
    fault. -/
def Document.ReadAlike (first second : Text) : Prop :=
  (∃ definitions : List Definition, Document.parse first = .ok ⟨definitions.map .node, [first]⟩
      ∧ Document.parse second = .ok ⟨definitions.map .node, [second]⟩)
    ∨ ∃ fault i j, Document.parse first = .error ⟨fault, first, i⟩
      ∧ Document.parse second = .error ⟨fault, second, j⟩

/-- Texts with the same tokens are read alike. -/
theorem Document.parse_congr {first second : Text} (h : Lexer.scan first = Lexer.scan second) :
    Document.ReadAlike first second := by
  have houtcome := placeless_someUntil placeless_atEnd placeless_definition _ _ h
  rw [ReadAlike, Document.parse, Document.parse, whole, whole]
  match someUntil atEnd definition (Lexer.lexemes first),
    someUntil atEnd definition (Lexer.lexemes second), houtcome with
  | .ok (definitions, _), .ok (_, _), ⟨rfl, _⟩ => exact .inl ⟨definitions, rfl, rfl⟩
  | .error (fault, i), .error (_, j), rfl => exact .inr ⟨fault, i, j, rfl, rfl⟩

end SchemaStitch

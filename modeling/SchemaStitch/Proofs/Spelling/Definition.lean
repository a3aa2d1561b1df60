import SchemaStitch.Proofs.Spelling

/-! # What printed definitions spell

    Comments vanish together with their line ends, so a type spells the same with the
    comments among its members as without them, and a printed sequence of entries spells
    the tokens of its definitions (`spells_printEntries`). -/

namespace SchemaStitch

open SchemaStitch.Parser

/-! ## Type definitions, schema declarations and directives -/

/-- The keywords of types are names to the lexer. -/
theorem isName_keyword (kind : BlockKind) : isName kind.keyword = true := by
  cases kind <;> rfl

/-- Names with a punctuator between them spell their tokens. -/
theorem spells_names {names : List Text} (h : ∀ name ∈ names, isName name = true)
    {p : Punctuator} {separator : Text} (hs : Leads separator [.punctuator p])
    (hb : IsBounded separator) (hne : separator ≠ []) :
    Spells (Text.join separator names)
      (separateTokens (.punctuator p) (names.map fun name => [.name name])) := by
  have hparts : List.Forall₂ Spells (names.map id) (names.map fun name => [Token.name name]) :=
    forall₂_spells fun name hn => spells_name (h name hn)
  rw [List.map_id] at hparts
  exact Spells.join hs hb hne hparts

/-- Joined names are no empty text, so that printing does not leave them out. -/
theorem join_names_ne_nil {separator : Text} {names : List Text}
    (h : ∀ name ∈ names, isName name = true) (hs : separator ≠ []) (hne : names ≠ []) :
    (Text.join separator names).isEmpty = false := by
  rw [List.isEmpty_eq_false_iff]
  intro hjoin
  rcases join_eq_nil hs hjoin with hnil | hone
  · exact hne hnil
  · have hname := h [] (hone ▸ List.mem_singleton_self _)
    cases hname

theorem leads_bar : Leads " | " [.punctuator .bar] := by
  intro text more h
  exact .ignored rfl (Leads.punctuator .bar _ _ (.ignored rfl h))

theorem leads_ampersand : Leads " & " [.punctuator .ampersand] := by
  intro text more h
  exact .ignored rfl (Leads.punctuator .ampersand _ _ (.ignored rfl h))

/-- A word and a blank spell the word in front of anything. -/
theorem leads_word (word : Text) (h : isName word = true) :
    Leads (word ++ [' ']) [wordToken word] :=
  Leads.ofIgnored (spells_name h) rfl rfl

/-- Printed interfaces spell their tokens, and nothing if there are none. -/
theorem spells_interfaces {interfaces : List Text} (h : ∀ name ∈ interfaces, isName name = true) :
    Spells (Text.enclose "implements " (Text.join " & " interfaces) [])
      (interfaceTokens interfaces) := by
  have hnames := spells_names h leads_ampersand (isBounded_cons.mpr rfl) (by decide)
  have hall := Spells.enclose (leads_word "implements" rfl) .nil isBounded_nil hnames
  cases interfaces with
  | nil => exact .nil
  | cons name rest =>
      rw [join_names_ne_nil h (by decide) (List.cons_ne_nil _ _)] at hall
      simpa [interfaceTokens, wordToken] using hall

/-- What stands before the members of a type, part by part. -/
theorem Block.WellFormed.forall₂_header {block : Block} (h : block.WellFormed) :
    List.Forall₂ Spells block.header
      [[.name block.kind.keyword], [.name block.name], interfaceTokens block.interfaces,
        directiveTokens block.directives] :=
  .cons (spells_name (isName_keyword _)) (.cons (spells_name h.name)
    (.cons (spells_interfaces h.interfaces) (.cons (spells_directives h.directives) .nil)))

/-- A comment line is a number sign with the rest of a line behind it. -/
theorem printComment_eq {line : Text} (h : ∀ c ∈ line, Text.isNewline c = false) :
    ∃ body, printComment line = '#' :: body ∧ ∀ c ∈ body, Text.isNewline c = false := by
  rw [printComment]
  split
  · exact ⟨[], rfl, by simp⟩
  · refine ⟨' ' :: line, rfl, ?_⟩
    intro c hc
    rcases List.mem_cons.mp hc with rfl | hc
    · rfl
    · exact h c hc

/-- A comment spells nothing before what stands on the next line. -/
theorem Spells.afterComment {line text : Text} {tokens : List Token}
    (hl : ∀ c ∈ line, Text.isNewline c = false) (h : Spells text tokens) :
    Spells (printComment line ++ '\n' :: text) tokens := by
  obtain ⟨body, hbody, hline⟩ := printComment_eq hl
  rw [hbody]
  exact .comment hline h

/-- A comment is indented by two blanks before it. -/
theorem indent_printComment {line : Text} (h : ∀ c ∈ line, Text.isNewline c = false) :
    (printComment line).indent = ' ' :: ' ' :: printComment line := by
  obtain ⟨body, hbody, hline⟩ := printComment_eq h
  have hone : '\n' ∉ '#' :: body := by
    intro hm
    rcases List.mem_cons.mp hm with hc | hc
    · exact absurd hc (by decide)
    · exact Bool.noConfusion (hline _ hc)
  rw [hbody, Text.indent, Text.indentTail_eq_shift, Text.shift_eq_self 2 hone]

/-- Joining sets a separator behind every part but the last. -/
theorem Text.join_cons {separator part : Text} {rest : List Text} (hne : rest ≠ []) :
    Text.join separator (part :: rest) = part ++ (separator ++ Text.join separator rest) := by
  obtain ⟨next, others, rfl⟩ := List.exists_cons_of_ne_nil hne
  rw [Text.join, Text.join, List.intercalate_cons_cons, List.append_assoc]

/-- Members with comments among them, each of them on lines of its own. -/
theorem spells_entries {kind : BlockKind} {entries : List (Entry Member)}
    (ha : Entry.Attached entries) (h : ∀ member ∈ Entry.nodes entries, member.WellFormed kind) :
    Spells (Text.join "\n" (entries.map fun entry => (Entry.printMember entry).indent))
      ((Entry.nodes entries).map Member.tokens).flatten := by
  induction ha with
  | nil => exact .nil
  | @node member rest _ ih =>
      have hmember : Spells member.print.indent member.tokens :=
        (h member (List.mem_cons_self ..)).spells.indent
      have hrest := ih fun other ho => h other (List.mem_cons_of_mem _ ho)
      cases rest with
      | nil => simpa [Text.join, Entry.printMember] using hmember
      | cons next others =>
          rw [List.map_cons, Text.join_cons (by simp)]
          exact hmember.append (.ignored rfl hrest) (isBounded_cons.mpr rfl)
  | @comment line rest hl hne _ ih =>
      rw [List.map_cons, Text.join_cons (by simpa using hne), Entry.printMember,
        indent_printComment hl]
      exact .ignored rfl (.ignored rfl (Spells.afterComment hl (ih h)))

/-- A type printed without its members spells its header and braces. -/
theorem Block.WellFormed.spells {block : Block} (h : block.WellFormed) :
    Spells block.printBare (TypeDefinition.block block).bareTokens := by
  have hmembers := spells_printBlock (forall₂_spells fun member hm => (h.members member hm).spells)
  have hall := Spells.joinPresent (List.rel_append h.forall₂_header (.cons hmembers .nil))
  simpa [Block.printBare, TypeDefinition.bareTokens, Block.headerTokens] using hall

/-- What is printed behind the header of a type: its entries between braces, each of them
    indented by itself; nothing for no entries. -/
def Entry.printBody (entries : List (Entry Member)) : Text :=
  if entries.isEmpty then []
  else [' ', '{', '\n'] ++ Text.join "\n" (entries.map fun entry => entry.printMember.indent) ++ ['\n', '}']

/-- A type with members and the comments among them: its header, then its body. -/
theorem Block.printWithComments_eq (block : Block) :
    block.printWithComments = printDescription block.description
      ++ (Text.joinPresent " " block.header ++ Entry.printBody block.members) := by
  have hheader : (Definition.type (.block { block with members := [] })).print
      = printDescription block.description ++ Text.joinPresent " " block.header := by
    show printDescription block.description ++ Text.joinPresent " " (block.header ++ [[]]) = _
    rw [Text.joinPresent, Text.joinPresent, List.filter_append]
    simp
  rw [Block.printWithComments, Entry.printBody]
  simp only [hheader]
  split
  · rw [List.append_nil]
  · simp only [List.append_assoc]

/-- A type printed with its members, and the comments among them, spells its tokens: a comment
    ends with its line. -/
theorem Block.WellFormed.spells_printWithComments {block : Block} (h : block.WellFormed)
    (ha : Entry.Attached block.members) :
    Spells block.printWithComments (Definition.type (.block block)).tokens := by
  -- description, header and body spell their parts, and none runs into the next
  have hheader := Spells.joinPresent h.forall₂_header
  have htokens : (Definition.type (.block block)).tokens
      = descriptionTokens block.description ++ (block.headerTokens
        ++ encloseTokens .openBrace .closeBrace ((Entry.nodes block.members).map Member.tokens)) :=
    rfl
  have hheaderTokens : block.headerTokens = List.flatten
      [[.name block.kind.keyword], [.name block.name], interfaceTokens block.interfaces,
        directiveTokens block.directives] := by
    simp [Block.headerTokens]
  rw [Block.printWithComments_eq, htokens, hheaderTokens]
  refine leads_description h.description _ _ ?_
  rw [Entry.printBody]
  split
  · next hempty =>
      rw [List.isEmpty_iff.mp hempty]
      simpa [encloseTokens] using hheader
  · -- a body that is not empty has a member, so there are braces among the tokens
    next hfull =>
      have hne : Entry.nodes block.members ≠ [] :=
        ha.nodes_ne_nil fun hnil => hfull (by rw [hnil]; rfl)
      have hopen : Leads [' ', '{', '\n'] [.punctuator .openBrace] := by
        intro text more ht
        exact .ignored rfl (Leads.punctuator .openBrace _ _ (.ignored rfl ht))
      have hclose : Spells ['\n', '}'] [.punctuator .closeBrace] :=
        .ignored rfl (Leads.punctuator .closeBrace).spells
      have hbody := (spells_entries ha h.members).append hclose (isBounded_cons.mpr rfl)
      rw [List.append_assoc, encloseTokens, if_neg (by simpa using hne)]
      exact hheader.append (hopen _ _ hbody) (isBounded_cons.mpr rfl)

/-- A printed scalar spells its tokens. -/
theorem ScalarType.WellFormed.spells {scalar : ScalarType} (h : scalar.WellFormed) :
    Spells scalar.printBare (TypeDefinition.scalar scalar).bareTokens := by
  have hall := Spells.joinPresent (.cons (spells_word "scalar" rfl)
    (.cons (spells_name h.name) (.cons (spells_directives h.directives) .nil)))
  simpa [ScalarType.printBare, TypeDefinition.bareTokens, wordToken] using hall

/-- The types of a union spell their tokens, and nothing if there are none. -/
theorem spells_unionTypes {types : List Text} (h : ∀ name ∈ types, isName name = true) :
    Spells (Text.enclose "= " (Text.join " | " types) [])
      (if types.isEmpty then []
        else .punctuator .equals
          :: separateTokens (.punctuator .bar) (types.map fun name => [.name name])) := by
  have hnames := spells_names h leads_bar (isBounded_cons.mpr rfl) (by decide)
  have hequals : Leads "= " [.punctuator .equals] :=
    (Leads.punctuator .equals).append (Leads.ignored (by decide) : Leads " " [])
  have hall := Spells.enclose hequals .nil isBounded_nil hnames
  cases types with
  | nil => exact .nil
  | cons name rest =>
      rw [join_names_ne_nil h (by decide) (List.cons_ne_nil _ _)] at hall
      simpa using hall

/-- A printed union spells its tokens. -/
theorem UnionType.WellFormed.spells {union : UnionType} (h : union.WellFormed) :
    Spells union.printBare (TypeDefinition.union union).bareTokens := by
  have hall := Spells.joinPresent (.cons (spells_word "union" rfl)
    (.cons (spells_name h.name) (.cons (spells_directives h.directives)
      (.cons (spells_unionTypes h.types) .nil))))
  simpa [UnionType.printBare, TypeDefinition.bareTokens, wordToken] using hall

/-- A type of any kind printed without its members spells its tokens. -/
theorem TypeDefinition.WellFormed.spells {type : TypeDefinition} (h : type.WellFormed) :
    Spells type.printBare type.bareTokens := by
  cases type with
  | scalar s => exact ScalarType.WellFormed.spells h
  | block b => exact Block.WellFormed.spells h
  | union u => exact UnionType.WellFormed.spells h

theorem isName_operationKeyword (kind : OperationKind) : isName kind.keyword = true := by
  cases kind <;> rfl

/-- A root operation spells its kind, a colon and its type. -/
theorem RootOperation.spells {root : RootOperation} (h : isName root.type = true) :
    Spells root.print root.tokens :=
  leads_label (isName_operationKeyword _) _ _ (spells_name h)

/-- A schema declaration without its description spells its tokens. -/
theorem SchemaBlock.WellFormed.spells {schema : SchemaBlock} (h : schema.WellFormed) :
    Spells schema.printBare schema.bareTokens := by
  have hroots := forall₂_spells fun root hr => RootOperation.spells (h.operations root hr)
  have hall := Spells.joinPresent (.cons (spells_word "schema" rfl)
    (.cons (spells_directives h.directives) (.cons (spells_printBlock hroots) .nil)))
  simpa [SchemaBlock.printBare, SchemaBlock.bareTokens, wordToken] using hall

/-- The places of directives are names to the lexer. -/
theorem isName_location (location : DirectiveLocation) : isName location.keyword = true := by
  cases location <;> rfl

theorem leads_on : Leads " on " [wordToken "on"] := by
  intro text more h
  exact .ignored rfl (leads_word "on" rfl _ _ h)

/-- The word for a repeatable directive is spelled if it is one. -/
theorem spells_repeatable (repeatable : Bool) :
    Spells (if repeatable then (" repeatable" : Text) else [])
      (if repeatable then [wordToken "repeatable"] else []) := by
  cases repeatable with
  | false => exact .nil
  | true => exact .ignored rfl (spells_name rfl)

theorem isBounded_repeatable (repeatable : Bool) :
    IsBounded (if repeatable then (" repeatable" : Text) else []) := by
  cases repeatable with
  | false => exact isBounded_nil
  | true => exact isBounded_cons.mpr rfl

/-- The places of a directive spell their tokens. -/
theorem spells_locations (locations : List DirectiveLocation) :
    Spells (Text.join " | " (locations.map DirectiveLocation.keyword))
      (separateTokens (.punctuator .bar)
        (locations.map fun location => [.name location.keyword])) :=
  Spells.join leads_bar (isBounded_cons.mpr rfl) (by decide)
    (forall₂_spells fun location _ => spells_name (isName_location location))

/-- The printed definition of a directive spells its tokens. -/
theorem DirectiveDefinition.WellFormed.spells {directive : DirectiveDefinition}
    (h : directive.WellFormed) :
    Spells directive.print (Definition.directive directive).tokens := by
  have hsign : Leads "directive @" [wordToken "directive", .punctuator .atSign] :=
    (leads_word "directive" rfl).append (Leads.punctuator .atSign)
  have hplaces := leads_on _ _ (spells_locations directive.locations)
  have hbound : IsBounded (" on " ++ Text.join " | " (directive.locations.map
      DirectiveLocation.keyword)) := isBounded_cons.mpr rfl
  have hend := (spells_repeatable directive.repeatable).append hplaces hbound
  have hbound := (isBounded_repeatable directive.repeatable).append hbound
  have harguments := (spells_argumentDefinitions h.arguments).append hend hbound
  have hbound := (isBounded_argumentDefinitions directive.arguments).append hbound
  have hname := (spells_name h.name).append harguments hbound
  have hall := leads_description h.description _ _ (hsign _ _ hname)
  simp only [DirectiveDefinition.print, Definition.tokens, DirectiveDefinition.bareTokens,
    List.append_assoc]
  exact hall

/-! ## Operations and fragments -/

/-- The name of a selected field, with the name that the answer has for it. -/
def printLabel (responseName : Option Text) (name : Text) : Text :=
  (match responseName with
    | none => []
    | some responseName => responseName ++ ": ") ++ name

/-- The label of a selected field spells its tokens. -/
theorem spells_label {responseName : Option Text} {name : Text}
    (hr : ∀ label ∈ responseName, isName label = true) (hn : isName name = true) :
    Spells (printLabel responseName name) (tokensOfLabel responseName name) := by
  cases responseName with
  | none => exact spells_name hn
  | some label => exact leads_label (hr label rfl) _ _ (spells_name hn)

/-- The arguments of a selected field stand on lines of their own if the line would be too long. -/
theorem printFieldCall_eq (responseName : Option Text) (name : Text) (arguments : List Argument) :
    printFieldCall responseName name arguments
      = if (printLabel responseName name ++ printArguments arguments).length > 80 then
          printLabel responseName name ++ Text.enclose "(\n"
            (if arguments.isEmpty then [] else (Text.join "\n" (arguments.map Argument.print)).indent)
            "\n)"
        else printLabel responseName name ++ printArguments arguments :=
  rfl

/-- A selected field with its arguments, in whichever way they are laid out. -/
theorem spells_fieldCall {responseName : Option Text} {name : Text} {arguments : List Argument}
    {depth : Nat} (hr : ∀ label ∈ responseName, isName label = true) (hn : isName name = true)
    (ha : ∀ argument ∈ arguments, argument.WellFormed false depth) :
    Spells (printFieldCall responseName name arguments)
      (tokensOfLabel responseName name ++ argumentTokens arguments) := by
  have hlabel := spells_label hr hn
  rw [printFieldCall_eq]
  split
  · refine hlabel.append ?_ (isBounded_enclose (isBounded_cons.mpr rfl) (by decide))
    cases arguments with
    | nil => exact .nil
    | cons first rest =>
        have hopen : Leads "(\n" [.punctuator .openParen] :=
          (Leads.punctuator .openParen).append (Leads.ignored (by decide) : Leads "\n" [])
        have hclose : Spells "\n)" [.punctuator .closeParen] :=
          .ignored rfl (Leads.punctuator .closeParen).spells
        have hrows := Spells.joinLines (forall₂_spells fun argument h => (ha argument h).spells)
        exact (hopen _ _ hrows.indent).append hclose (isBounded_cons.mpr rfl)
  · exact hlabel.append (spells_arguments ha) (isBounded_arguments _)

/-- Selections are printed one by one. -/
theorem Selection.printAll_eq_map (selections : List Selection) :
    Selection.printAll selections = selections.map Selection.print := by
  induction selections with
  | nil => rfl
  | cons selection rest ih => rw [Selection.printAll, ih, List.map_cons]

/-- A condition on the type of a set of selections. -/
def printCondition (typeCondition : Option Text) : Text :=
  match typeCondition with
  | none => []
  | some name => "on " ++ name

/-- An inline fragment is its condition, directives and selections behind three dots. -/
theorem Selection.print_inline (typeCondition : Option Text) (directives : List Directive)
    (selections : List Selection) :
    (Selection.inline typeCondition directives selections).print
      = Text.joinPresent " " ["...", printCondition typeCondition, printDirectives directives,
          printBlock (selections.map Selection.print)] := by
  rw [← Selection.printAll_eq_map]
  cases typeCondition with
  | none => rw [Selection.print]; rfl
  | some name => rw [Selection.print]; rfl

/-- The type condition of an inline fragment spells its tokens. -/
theorem spells_condition {typeCondition : Option Text}
    (h : ∀ name ∈ typeCondition, isName name = true) :
    Spells (printCondition typeCondition) (tokensOfCondition typeCondition) := by
  cases typeCondition with
  | none => exact .nil
  | some name => exact leads_word "on" rfl _ _ (spells_name (h name rfl))

/-- A printed selection spells its tokens; the induction goes through the selections below it. -/
theorem Selection.WellFormed.spells {depth : Nat} {selection : Selection}
    (h : selection.WellFormed depth) : Spells selection.print selection.tokens := by
  induction h with
  | field hr hn ha hd _ _ ih =>
      have hall := Spells.joinPresent (.cons (spells_fieldCall hr hn ha)
        (.cons (spells_directives hd) (.cons (spells_printBlock (forall₂_spells ih)) .nil)))
      rw [Selection.tokens_field, Selection.print, Selection.printAll_eq_map]
      simpa using hall
  | spread hn _ hd =>
      have hname := (spells_name hn).append (spells_directives hd).behindBlank
        (isBounded_behindBlank _)
      rw [Selection.print, Selection.tokens, List.append_assoc]
      exact Leads.punctuator .spread _ _ hname
  | inline ht hd _ _ _ ih =>
      have hall := Spells.joinPresent (.cons (Leads.punctuator .spread).spells
        (.cons (spells_condition ht) (.cons (spells_directives hd)
          (.cons (spells_printBlock (forall₂_spells ih)) .nil))))
      rw [Selection.tokens_inline, Selection.print_inline]
      simpa [Punctuator.text] using hall

/-- Selections in braces spell their tokens. -/
theorem spells_selectionSet {depth : Nat} {selections : List Selection}
    (h : Selection.SetWellFormed depth selections) :
    Spells (printBlock (Selection.printAll selections)) (selectionSetTokens selections) := by
  rw [selectionSetTokens, Selection.printAll_eq_map, Selection.tokensOfAll_eq_map]
  exact spells_printBlock (forall₂_spells fun selection hs => (h.selections selection hs).spells)

/-- The printed definition of a variable spells its tokens. -/
theorem VariableDefinition.WellFormed.spells {definition : VariableDefinition}
    (h : definition.WellFormed) : Spells definition.print definition.tokens := by
  have hdefault := (spells_default h.defaultValue).behindBlank.append
    (spells_directives h.directives).behindBlank (isBounded_behindBlank _)
  have htype := (TypeRef.spells h.type.name).append hdefault
    ((isBounded_behindBlank _).append (isBounded_behindBlank _))
  have hname := Leads.punctuator .dollar _ _ (leads_label h.name _ _ htype)
  have hall := leads_description h.description _ _ hname
  simpa [VariableDefinition.print, VariableDefinition.tokens, Punctuator.text] using hall

theorem VariableDefinition.tokens_ne_nil (definition : VariableDefinition) :
    definition.tokens ≠ [] := by
  simp [VariableDefinition.tokens]

/-- The definitions of variables, in whichever way they are laid out. -/
theorem spells_variables {definitions : List VariableDefinition}
    (h : ∀ definition ∈ definitions, definition.WellFormed) :
    Spells (printVariables definitions)
      (encloseTokens .openParen .closeParen (definitions.map VariableDefinition.tokens)) := by
  have hparts := forall₂_spells fun definition hd => (h definition hd).spells
  have hne : [] ∉ definitions.map VariableDefinition.tokens := by
    simp [VariableDefinition.tokens_ne_nil]
  rw [printVariables]
  split
  · cases definitions with
    | nil => simp at *
    | cons first rest => exact (Spells.joinLines hparts).parenthesized
  · exact spells_parentheses hparts hne

theorem isBounded_variables (definitions : List VariableDefinition) :
    IsBounded (printVariables definitions) := by
  rw [printVariables]
  split
  · exact isBounded_cons.mpr rfl
  · exact isBounded_enclose (isBounded_cons.mpr rfl) (by decide)

namespace Operation

/-- What is printed before the selections of an operation. -/
def printHead (operation : Operation) : Text :=
  printDescription operation.description
    ++ Text.joinPresent " "
      [operation.kind.keyword,
        operation.name.getD [] ++ printVariables operation.variableDefinitions,
        printDirectives operation.directives]

/-- An operation is its head and its selections; the head is left out if it is the plain keyword
    of a query. -/
theorem print_eq (operation : Operation) :
    operation.print = (if operation.printHead = "query" then [] else operation.printHead ++ [' '])
      ++ printBlock (Selection.printAll operation.selections) :=
  rfl

/-- The head of an operation spells its description, its keyword and what comes behind that. -/
theorem WellFormed.spells_head {operation : Operation} (h : operation.WellFormed) :
    Spells operation.printHead (descriptionTokens operation.description
      ++ .name operation.kind.keyword :: operation.headTokens) := by
  have hname : Spells (operation.name.getD []) (operation.name.toList.map Token.name) := by
    have hnames := h.name
    cases hn : operation.name with
    | none => exact .nil
    | some name => exact spells_name (hnames name hn)
  have hlabel := hname.append (spells_variables h.variableDefinitions) (isBounded_variables _)
  have hparts := Spells.joinPresent (.cons (spells_name (isName_operationKeyword operation.kind))
    (.cons hlabel (.cons (spells_directives h.directives) .nil)))
  have hall := leads_description h.description _ _ hparts
  simpa [printHead, headTokens] using hall

/-- The word of a query is left out if nothing else stands before its selections. -/
theorem WellFormed.printHead_eq {operation : Operation} (h : operation.WellFormed) :
    operation.printHead = "query" ↔ operation.isShorthand = true := by
  constructor
  · intro hquery
    have hhead := h.spells_head
    rw [hquery] at hhead
    -- the head spells one token only, so there is nothing else before the selections
    have htokens := hhead.unique (spells_word "query" rfl)
    cases hd : operation.description with
    | none =>
        rw [hd] at htokens
        obtain ⟨hkind, hrest⟩ := List.cons.inj htokens
        have hkeyword : operation.kind = .query := by
          cases hk : operation.kind with
          | query => rfl
          | mutation => rw [hk] at hkind; exact absurd hkind (by decide)
          | subscription => rw [hk] at hkind; exact absurd hkind (by decide)
        simp [isShorthand, hd, hkeyword, hrest]
    | some literal =>
        rw [hd] at htokens
        exact absurd (List.append_eq_nil_iff.mp (List.cons.inj htokens).2).2 (List.cons_ne_nil _ _)
  · intro hshort
    rw [Operation.eq_of_isShorthand hshort]
    rfl

/-- A printed operation spells its tokens, in the short form too. -/
theorem WellFormed.spells {operation : Operation} (h : operation.WellFormed) :
    Spells operation.print operation.tokens := by
  have hselections := spells_selectionSet h.selections
  rw [print_eq, tokens_eq]
  by_cases hs : operation.isShorthand = true
  · have hparts := hs
    simp only [isShorthand, Bool.and_eq_true, Option.isNone_iff_eq_none, List.isEmpty_iff] at hparts
    rw [if_pos (h.printHead_eq.mpr hs), if_pos hs, hparts.1.2, hparts.2]
    exact hselections
  · rw [if_neg (mt h.printHead_eq.mp hs), if_neg hs]
    have hall := Leads.ofIgnored (c := ' ') h.spells_head rfl rfl _ _ hselections
    simpa using hall

end Operation

/-- A printed fragment spells its tokens. -/
theorem Fragment.WellFormed.spells {fragment : Fragment} (h : fragment.WellFormed) :
    Spells fragment.print fragment.tokens := by
  have hfragment : Leads "fragment " [wordToken "fragment"] := leads_word "fragment" rfl
  have hdirectives := (spells_directives h.directives).beforeBlank _ _
    (spells_selectionSet h.selections)
  have hcondition := leads_word fragment.typeCondition h.typeCondition _ _ hdirectives
  have hname := (spells_name h.name).append (leads_on _ _ hcondition) (isBounded_cons.mpr rfl)
  have hall := leads_description h.description _ _ (hfragment _ _ hname)
  simp only [List.append_assoc] at hall
  simp only [Fragment.print, Fragment.tokens, List.append_assoc]
  exact hall

/-! ## Definitions and documents -/

theorem leads_extend : Leads "extend " [wordToken "extend"] :=
  leads_word "extend" rfl

/-- A printed definition spells its tokens, with comments among its members too. -/
theorem Definition.WellFormed.spells {definition : Definition} (h : definition.WellFormed)
    (ha : Entry.Attached definition.body) :
    Spells definition.printWithComments definition.tokens := by
  cases definition with
  | schema s => exact leads_description h.1.description _ _ h.1.spells
  | type t =>
      cases t with
      | scalar s =>
          exact leads_description (ScalarType.WellFormed.description h) _ _
            (ScalarType.WellFormed.spells h)
      | block b => exact Block.WellFormed.spells_printWithComments h ha
      | union u =>
          exact leads_description (UnionType.WellFormed.description h) _ _
            (UnionType.WellFormed.spells h)
  | directive d => exact DirectiveDefinition.WellFormed.spells h
  | extendSchema s => exact leads_extend _ _ h.1.spells
  | extendType t => exact leads_extend _ _ h.1.spells
  | operation o => exact Operation.WellFormed.spells h
  | fragment f => exact Fragment.WellFormed.spells h

theorem printEntriesAfter_eq (gap : Text) {entries : List (Entry Definition)}
    (hne : entries ≠ []) : printEntriesAfter gap entries = gap ++ printEntries entries := by
  obtain ⟨entry, rest, rfl⟩ := List.exists_cons_of_ne_nil hne
  rfl

/-- Behind each printed entry there is the gap that it asks for. -/
theorem printEntries_cons (entry : Entry Definition) {rest : List (Entry Definition)}
    (hne : rest ≠ []) :
    printEntries (entry :: rest) = entry.print ++ (entry.gap ++ printEntries rest) := by
  show entry.print ++ printEntriesAfter entry.gap rest = _
  rw [printEntriesAfter_eq _ hne]

theorem printEntries_singleton (entry : Entry Definition) : printEntries [entry] = entry.print :=
  List.append_nil _

/-- A line without tokens between definitions. -/
theorem leads_blankLine : Leads "\n\n" [] :=
  Leads.ignored (by decide)

/-- Printed entries spell the tokens of their definitions. -/
theorem spells_printEntries {entries : List (Entry Definition)} (ha : Entry.Attached entries)
    (h : ∀ definition ∈ Entry.nodes entries,
      definition.WellFormed ∧ Entry.Attached definition.body) :
    Spells (printEntries entries) ((Entry.nodes entries).flatMap Definition.tokens) := by
  induction ha with
  | nil => exact .nil
  | @node definition rest _ ih =>
      obtain ⟨hd, hb⟩ := h definition (List.mem_cons_self ..)
      have hrest := ih fun other ho => h other (List.mem_cons_of_mem _ ho)
      rw [Entry.nodes_node, List.flatMap_cons]
      by_cases hne : rest = []
      · rw [hne, printEntries_singleton, Entry.nodes_nil, List.flatMap_nil, List.append_nil]
        exact hd.spells hb
      · rw [printEntries_cons _ hne]
        exact (hd.spells hb).append (leads_blankLine _ _ hrest) (isBounded_cons.mpr rfl)
  | @comment line rest hl hne _ ih =>
      rw [printEntries_cons _ hne]
      exact Spells.afterComment hl (ih h)

end SchemaStitch

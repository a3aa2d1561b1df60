import Mathlib.Data.List.Forall2
import SchemaStitch.Document.Printer
import SchemaStitch.Proofs.WellFormed

/-! # What printed values and members spell

    The printed form of a well-formed node spells the tokens of the node.  Separators
    and indentation bring in ignored characters only.  What may go before any other text
    leads it (`Leads`); everything else needs a boundary behind it. -/

namespace SchemaStitch

open SchemaStitch.Parser

/-! ## Putting texts together -/

/-- A text that spells tokens whatever stands behind it. -/
def Leads (before : Text) (tokens : List Token) : Prop :=
  ∀ (text : Text) (more : List Token), Spells text more → Spells (before ++ text) (tokens ++ more)

namespace Leads

variable {first second : Text} {tokens more : List Token}

/-- What spells tokens in front of anything spells them alone. -/
theorem spells (h : Leads first tokens) : Spells first tokens := by
  have hnil := h [] [] .nil
  rwa [List.append_nil, List.append_nil] at hnil

/-- Two texts that lead spell their tokens one after the other. -/
theorem append (h1 : Leads first tokens) (h2 : Leads second more) :
    Leads (first ++ second) (tokens ++ more) := by
  intro text others h
  rw [List.append_assoc, List.append_assoc]
  exact h1 _ _ (h2 _ _ h)

/-- Ignored characters lead, and they spell nothing. -/
theorem ignored (h : first.all isIgnored = true) : Leads first [] := by
  intro text others ht
  induction first with
  | nil => exact ht
  | cons c cs ih =>
      rw [List.all_cons, Bool.and_eq_true] at h
      exact .ignored h.1 (ih h.2)

/-- A punctuator leads: no longer token begins with it. -/
theorem punctuator (p : Punctuator) : Leads p.text [.punctuator p] :=
  fun _ _ h => .token (.punctuator p) (fun he => by cases he) h

/-- A blank or a line end lets anything follow. -/
theorem ofIgnored {c : Char} (h : Spells first tokens) (hc : isIgnored c = true)
    (hb : isBoundary c = true) : Leads (first ++ [c]) tokens := by
  intro text others ht
  rw [List.append_assoc]
  exact h.append (.ignored hc ht) (isBounded_cons.mpr hb)

end Leads

/-- A written token spells itself. -/
theorem Token.Written.spells {token : Token} {text : Text} (h : token.Written text) :
    Spells text [token] := by
  have hone := Spells.token h (fun _ => isBounded_nil) .nil
  rwa [List.append_nil] at hone

/-- A name spells itself. -/
theorem spells_name {name : Text} (h : isName name = true) : Spells name [.name name] :=
  (Token.Written.name h).spells

theorem spells_word (word : Text) (h : isName word = true) : Spells word [wordToken word] :=
  spells_name h

namespace Spells

variable {text : Text} {tokens : List Token}

/-- The empty text spells nothing. -/
theorem tokens_eq_nil (h : Spells [] tokens) : tokens = [] := by
  generalize htext : ([] : Text) = text at h
  cases h with
  | nil => rfl
  | ignored _ _ => cases htext
  | comment _ _ => cases htext
  | token hw _ _ =>
      obtain ⟨c, hc, -⟩ := hw.head
      rw [(List.append_eq_nil_iff.mp htext.symm).1] at hc
      cases hc

/-- A text spells one sequence of tokens only. -/
theorem unique {text : Text} {first second : List Token} (h1 : Spells text first)
    (h2 : Spells text second) : first = second := by
  have heq := (h1.scan_append isBounded_nil).symm.trans (h2.scan_append isBounded_nil)
  have hmap := List.append_cancel_right heq
  exact List.map_injective_iff.mpr (fun _ _ h => Except.ok.inj h) hmap

/-- Parts with a separator between them. -/
theorem join {separator : Text} {between : List Token} (hs : Leads separator between)
    (hb : IsBounded separator) (hne : separator ≠ []) {parts : List Text}
    {tokens : List (List Token)} (h : List.Forall₂ Spells parts tokens) :
    Spells (Text.join separator parts) (between.intercalate tokens) := by
  induction h with
  | nil => exact .nil
  | @cons part own rest others hpart hrest ih =>
      cases hrest with
      | nil =>
          rw [Text.join, List.intercalate_singleton, List.intercalate_singleton]
          exact hpart
      | cons hnext hothers =>
          rw [Text.join, List.intercalate_cons_cons, List.intercalate_cons_cons,
            List.append_assoc, List.append_assoc]
          obtain ⟨c, cs, rfl⟩ := List.exists_cons_of_ne_nil hne
          exact hpart.append (hs _ _ ih) (isBounded_cons.mpr (isBounded_cons.mp hb))

end Spells

/-- Items whose printed forms spell their tokens do so one by one. -/
theorem forall₂_spells {α : Type} {print : α → Text} {tokens : α → List Token} {items : List α}
    (h : ∀ item ∈ items, Spells (print item) (tokens item)) :
    List.Forall₂ Spells (items.map print) (items.map tokens) := by
  rw [List.forall₂_map_left_iff, List.forall₂_map_right_iff]
  exact List.forall₂_same.mpr h

theorem intercalate_nil_left {α : Type} (parts : List (List α)) :
    ([] : List α).intercalate parts = parts.flatten := by
  induction parts with
  | nil => rfl
  | cons part rest ih =>
      cases rest with
      | nil => rw [List.intercalate_singleton, List.flatten_cons, List.flatten_nil, List.append_nil]
      | cons next others =>
          rw [List.intercalate_cons_cons, ih, List.append_nil]
          rfl

namespace Spells

variable {text : Text} {parts : List Text} {tokens : List (List Token)}

/-- Parts in a row. -/
theorem joinIgnored {separator : Text} (hs : separator.all isIgnored = true)
    (hb : IsBounded separator) (hne : separator ≠ []) (h : List.Forall₂ Spells parts tokens) :
    Spells (Text.join separator parts) tokens.flatten := by
  rw [← intercalate_nil_left]
  exact join (Leads.ignored hs) hb hne h

/-- Parts with commas between them. -/
theorem joinComma (h : List.Forall₂ Spells parts tokens) :
    Spells (Text.join ", " parts) tokens.flatten :=
  joinIgnored (by decide) (isBounded_cons.mpr rfl) (by decide) h

/-- Parts with blanks between them. -/
theorem joinBlank (h : List.Forall₂ Spells parts tokens) :
    Spells (Text.join " " parts) tokens.flatten :=
  joinIgnored (by decide) (isBounded_cons.mpr rfl) (by decide) h

/-- Parts on lines of their own. -/
theorem joinLines (h : List.Forall₂ Spells parts tokens) :
    Spells (Text.join "\n" parts) tokens.flatten :=
  joinIgnored (by decide) (isBounded_cons.mpr rfl) (by decide) h

/-- The parts that are there, with blanks between them. -/
theorem joinPresent (h : List.Forall₂ Spells parts tokens) :
    Spells (Text.joinPresent " " parts) tokens.flatten := by
  have hpresent : ∃ others : List (List Token), others.flatten = tokens.flatten
      ∧ List.Forall₂ Spells (parts.filter fun part => !part.isEmpty) others := by
    induction h with
    | nil => exact ⟨[], rfl, .nil⟩
    | @cons part own rest more hpart _ ih =>
        obtain ⟨others, hflat, hothers⟩ := ih
        cases part with
        | nil =>
            rw [hpart.tokens_eq_nil]
            exact ⟨others, hflat, hothers⟩
        | cons c cs =>
            refine ⟨own :: others, ?_, .cons hpart hothers⟩
            rw [List.flatten_cons, List.flatten_cons, hflat]
  obtain ⟨others, hflat, hothers⟩ := hpresent
  rw [Text.joinPresent, ← hflat]
  exact joinBlank hothers

end Spells

/-- A part between two texts; an empty one stays empty and spells nothing. -/
theorem Spells.enclose {before part after : Text} {first tokens last : List Token}
    (hb : Leads before first) (ha : Spells after last) (hbound : IsBounded after)
    (h : Spells part tokens) :
    Spells (Text.enclose before part after)
      (if part.isEmpty then [] else first ++ tokens ++ last) := by
  rw [Text.enclose]
  cases part with
  | nil => exact .nil
  | cons c cs => exact (hb _ _ h).append ha hbound

/-- A joined text is empty only for want of parts. -/
theorem join_eq_nil {separator : Text} {parts : List Text} (hne : separator ≠ [])
    (h : Text.join separator parts = []) : parts = [] ∨ parts = [[]] := by
  match parts with
  | [] => exact .inl rfl
  | [part] => exact .inr (by rw [Text.join, List.intercalate_singleton] at h; rw [h])
  | part :: next :: others =>
      rw [Text.join, List.intercalate_cons_cons] at h
      exact absurd (List.append_eq_nil_iff.mp (List.append_eq_nil_iff.mp h).1).2 hne

/-- A sequence in parentheses; nothing for no items. -/
theorem spells_parentheses {parts : List Text} {tokens : List (List Token)}
    (h : List.Forall₂ Spells parts tokens) (hne : [] ∉ tokens) :
    Spells (Text.enclose "(" (Text.join ", " parts) ")")
      (encloseTokens .openParen .closeParen tokens) := by
  have hall := Spells.enclose (Leads.punctuator .openParen) (Leads.punctuator .closeParen).spells
    (isBounded_cons.mpr rfl) (Spells.joinComma h)
  cases h with
  | nil => exact .nil
  | @cons part own rest others hpart hrest =>
      have hfull : (Text.join ", " (part :: rest)).isEmpty = false := by
        rw [List.isEmpty_eq_false_iff]
        intro hjoin
        rcases join_eq_nil (by decide) hjoin with hnil | hone
        · cases hnil
        · rw [(List.cons.inj hone).1] at hpart
          exact hne (hpart.tokens_eq_nil ▸ List.mem_cons_self ..)
      rw [hfull] at hall
      exact hall

/-- A part behind a blank; nothing for an empty one. -/
theorem Spells.behindBlank {part : Text} {tokens : List Token} (h : Spells part tokens) :
    Spells (Text.enclose " " part []) tokens := by
  rw [Text.enclose]
  cases part with
  | nil => exact h
  | cons c cs =>
      rw [List.append_nil]
      exact .ignored rfl h

/-- A part before a blank; nothing for an empty one. -/
theorem Spells.beforeBlank {part : Text} {tokens : List Token} (h : Spells part tokens) :
    Leads (Text.enclose [] part " ") tokens := by
  rw [Text.enclose]
  cases part with
  | nil =>
      rw [h.tokens_eq_nil]
      exact Leads.ignored (by simp)
  | cons c cs => exact Leads.ofIgnored h rfl rfl

/-- A part behind a blank cannot run into the name before it, and neither can nothing. -/
theorem isBounded_behindBlank (part : Text) : IsBounded (Text.enclose " " part []) := by
  cases part with
  | nil => exact isBounded_nil
  | cons c cs => exact isBounded_cons.mpr rfl

/-- Items on lines of their own between braces; nothing for no items. -/
theorem spells_printBlock {items : List Text} {tokens : List (List Token)}
    (h : List.Forall₂ Spells items tokens) :
    Spells (printBlock items) (encloseTokens .openBrace .closeBrace tokens) := by
  cases h with
  | nil => exact .nil
  | @cons item own rest others hitem hrest =>
      have hopen : Leads ['{', '\n'] [.punctuator .openBrace] :=
        (Leads.punctuator .openBrace).append (Leads.ignored (by decide) : Leads "\n" [])
      have hclose : Spells ['\n', '}'] [.punctuator .closeBrace] :=
        .ignored rfl (Leads.punctuator .closeBrace).spells
      exact (hopen _ _ (Spells.joinLines (.cons hitem hrest)).indent).append hclose
        (isBounded_cons.mpr rfl)

/-! ## Types and values -/

/-- A string is written in its spelling. -/
theorem StringLiteral.WellFormed.written {literal : StringLiteral} (h : literal.WellFormed) :
    literal.token.Written literal.print := by
  obtain ⟨value, isBlock⟩ := literal
  cases isBlock with
  | false => exact .string value
  | true =>
      have hprint : StringLiteral.print ⟨value, true⟩ = '"' :: '"' :: '"' ::
          (Text.shift 0 (BlockString.escape (BlockString.framed value)) ++ ['"', '"', '"']) := by
        rw [Text.shift_zero]
        exact BlockString.print_eq_framed value
      rw [hprint]
      exact .blockString h 0

/-- A description leads what it describes. -/
theorem leads_description {description : Option StringLiteral}
    (h : ∀ literal ∈ description, literal.WellFormed) :
    Leads (printDescription description) (descriptionTokens description) := by
  cases description with
  | none => exact fun _ _ ht => ht
  | some literal => exact Leads.ofIgnored (h literal rfl).written.spells rfl rfl

/-- An exclamation mark is no part of a name or numeral. -/
theorem isBounded_required (required : Bool) :
    IsBounded (if required then ['!'] else []) := by
  cases required with
  | false => exact isBounded_nil
  | true => exact isBounded_cons.mpr rfl

theorem spells_required (required : Bool) :
    Spells (if required then ['!'] else []) (requiredTokens required) := by
  cases required with
  | false => exact .nil
  | true => exact (Leads.punctuator .bang).spells

/-- A printed type spells its tokens. -/
theorem TypeRef.spells {type : TypeRef} (h : isName type.name = true) :
    Spells type.print type.tokens := by
  induction type with
  | named name required =>
      exact (spells_name h).append (spells_required required) (isBounded_required required)
  | list item required ih =>
      have hitem := Leads.punctuator .openBracket _ _ (ih h)
      have hclose := Leads.punctuator .closeBracket _ _ (spells_required required)
      have hall := hitem.append hclose (isBounded_cons.mpr rfl)
      rw [TypeRef.print, List.append_assoc]
      exact hall

/-- The items of a list are printed one by one. -/
theorem Value.printItems_eq_map (items : List Value) :
    Value.printItems items = items.map Value.print := by
  induction items with
  | nil => rfl
  | cons item rest ih => rw [Value.printItems, ih, List.map_cons]

/-- A name with a value behind it. -/
def printLabelled (field : Text × Value) : Text :=
  field.1 ++ ": " ++ field.2.print

/-- The fields of an object are printed one by one, each behind its label. -/
theorem Value.printFields_eq_map (fields : List (Text × Value)) :
    Value.printFields fields = fields.map printLabelled := by
  induction fields with
  | nil => rfl
  | cons field rest ih => rw [Value.printFields, ih]; rfl

theorem leads_colon : Leads ": " [.punctuator .colon] :=
  (Leads.punctuator .colon).append (Leads.ignored (by decide) : Leads " " [])

/-- A name with a colon and a blank behind it leads what it labels. -/
theorem leads_label {name : Text} (h : isName name = true) :
    Leads (name ++ ": ") [.name name, .punctuator .colon] := by
  intro text more ht
  rw [List.append_assoc]
  exact (spells_name h).append (leads_colon _ _ ht) (isBounded_cons.mpr rfl)

/-- A label and a value spell a name, a colon and the tokens of the value. -/
theorem spells_labelled {field : Text × Value} (hn : isName field.1 = true)
    (h : Spells field.2.print field.2.tokens) :
    Spells (printLabelled field) (labelledTokens field) :=
  leads_label hn _ _ h

/-- A printed value spells its tokens; the induction goes through the items of lists and the
    fields of objects. -/
theorem Value.WellFormed.spells {constant : Bool} {depth : Nat} {value : Value}
    (h : value.WellFormed constant depth) : Spells value.print value.tokens := by
  induction h with
  | variableRef _ hn => exact Leads.punctuator .dollar _ _ (spells_name hn)
  | int h => exact (Token.Written.int h.1 h.2).spells
  | float h => exact (Token.Written.float h.1 h.2).spells
  | string h =>
      rw [Value.print, Value.tokens]
      exact h.written.spells
  | boolean value =>
      cases value with
      | true => exact spells_name rfl
      | false => exact spells_name rfl
  | null => exact spells_name rfl
  | enum hn _ => exact spells_name hn
  | list _ ih =>
      rw [Value.print, Value.tokens, Value.printItems_eq_map, Value.itemTokens_eq_flatten]
      have hitems := Spells.joinComma (forall₂_spells ih)
      exact (Leads.punctuator .openBracket _ _ hitems).append
        (Leads.punctuator .closeBracket).spells (isBounded_cons.mpr rfl)
  | object hn _ ih =>
      rw [Value.print, Value.tokens, Value.printFields_eq_map, Value.fieldTokens_eq_flatten]
      have hfields := Spells.joinComma
        (forall₂_spells fun field hf => spells_labelled (hn field hf) (ih field hf))
      exact (Leads.punctuator .openBrace _ _ hfields).append
        (Leads.punctuator .closeBrace).spells (isBounded_cons.mpr rfl)

section

variable {constant : Bool} {depth : Nat}

/-- A printed argument spells its tokens. -/
theorem Argument.WellFormed.spells {argument : Argument} (h : argument.WellFormed constant depth) :
    Spells argument.print argument.tokens :=
  leads_label h.name _ _ h.value.spells

/-- Printed arguments spell their tokens in brackets, and nothing if there are none. -/
theorem spells_arguments {arguments : List Argument}
    (h : ∀ argument ∈ arguments, argument.WellFormed constant depth) :
    Spells (printArguments arguments) (argumentTokens arguments) := by
  refine spells_parentheses (forall₂_spells fun argument ha => (h argument ha).spells) ?_
  simp [Argument.tokens]

/-- An opening parenthesis bounds the text, and so does nothing. -/
theorem isBounded_enclose {before part after : Text} (hb : IsBounded before)
    (hne : before ≠ []) : IsBounded (Text.enclose before part after) := by
  rw [Text.enclose]
  split
  · exact isBounded_nil
  · obtain ⟨c, cs, rfl⟩ := List.exists_cons_of_ne_nil hne
    exact isBounded_cons.mpr (isBounded_cons.mp hb)

/-- Printed arguments cannot run into the name before them. -/
theorem isBounded_arguments (arguments : List Argument) : IsBounded (printArguments arguments) :=
  isBounded_enclose (isBounded_cons.mpr rfl) (by decide)

/-- A printed directive spells its tokens. -/
theorem Directive.WellFormed.spells {directive : Directive}
    (h : directive.WellFormed constant depth) : Spells directive.print directive.tokens := by
  have hname := (spells_name h.name).append (spells_arguments h.arguments)
    (isBounded_arguments _)
  rw [Directive.print, List.append_assoc]
  exact Leads.punctuator .atSign _ _ hname

/-- Printed directives spell their tokens. -/
theorem spells_directives {directives : List Directive}
    (h : ∀ directive ∈ directives, directive.WellFormed constant depth) :
    Spells (printDirectives directives) (directiveTokens directives) := by
  rw [printDirectives, directiveTokens, List.flatMap_def]
  exact Spells.joinBlank (forall₂_spells fun directive hd => (h directive hd).spells)

end

/-! ## Members -/

/-- A printed default value spells an equals sign and its tokens, and nothing if there is none. -/
theorem spells_default {value : Option Value} {constant : Bool} {depth : Nat}
    (h : ∀ v ∈ value, v.WellFormed constant depth) :
    Spells (printDefault value) (defaultTokens value) := by
  cases value with
  | none => exact .nil
  | some v => exact Leads.punctuator .equals _ _ (.ignored rfl (h v rfl).spells)

/-- A printed argument definition or input field spells its tokens, with its description too. -/
theorem InputValue.WellFormed.spells {input : InputValue} (h : input.WellFormed) :
    Spells input.print input.tokens := by
  have htype := leads_label h.name _ _ (TypeRef.spells h.type.name)
  have hparts := Spells.joinPresent (.cons htype (.cons (spells_default h.defaultValue)
    (.cons (spells_directives h.directives) .nil)))
  have hall := leads_description h.description _ _ hparts
  simpa [InputValue.print, InputValue.tokens, InputValue.leadingTokens] using hall

/-- What is spelled on lines of its own between parentheses. -/
theorem Spells.parenthesized {body : Text} {tokens : List Token} (h : Spells body tokens) :
    Spells ("(\n" ++ body ++ "\n)")
      (.punctuator .openParen :: tokens ++ [.punctuator .closeParen]) := by
  have hopen : Leads "(\n" [.punctuator .openParen] :=
    (Leads.punctuator .openParen).append (Leads.ignored (by decide) : Leads "\n" [])
  have hclose : Spells "\n)" [.punctuator .closeParen] :=
    .ignored rfl (Leads.punctuator .closeParen).spells
  exact (hopen _ _ h).append hclose (isBounded_cons.mpr rfl)

theorem InputValue.tokens_ne_nil (input : InputValue) : input.tokens ≠ [] := by
  simp [InputValue.tokens, InputValue.leadingTokens]

/-- Argument definitions, in whichever way they are laid out. -/
theorem spells_argumentDefinitions {arguments : List InputValue}
    (h : ∀ argument ∈ arguments, argument.WellFormed) :
    Spells (printArgumentDefinitions arguments) (argumentDefinitionTokens arguments) := by
  have hparts := forall₂_spells fun argument ha => (h argument ha).spells
  have hne : [] ∉ arguments.map InputValue.tokens := by
    simp [InputValue.tokens_ne_nil]
  rw [printArgumentDefinitions]
  split
  · cases arguments with
    | nil => simp at *
    | cons first rest => exact (Spells.joinLines hparts).indent.parenthesized
  · exact spells_parentheses hparts hne

/-- Printed argument definitions cannot run into the name before them. -/
theorem isBounded_argumentDefinitions (arguments : List InputValue) :
    IsBounded (printArgumentDefinitions arguments) := by
  rw [printArgumentDefinitions]
  split
  · exact isBounded_cons.mpr rfl
  · exact isBounded_enclose (isBounded_cons.mpr rfl) (by decide)

/-- A printed field spells its tokens, with its arguments on one line or on several. -/
theorem Field.WellFormed.spells {field : Field} (h : field.WellFormed) :
    Spells field.print field.tokens := by
  have htype := (TypeRef.spells h.type.name).append (spells_directives h.directives).behindBlank
    (isBounded_behindBlank _)
  have harguments := (spells_argumentDefinitions h.arguments).append (leads_colon _ _ htype)
    (isBounded_cons.mpr rfl)
  have hname := (spells_name h.name).append harguments
    ((isBounded_argumentDefinitions _).append (isBounded_cons.mpr rfl))
  have hall := leads_description h.description _ _ hname
  simpa [Field.print, Field.tokens, Field.leadingTokens, Punctuator.text] using hall

/-- A printed enum value spells its tokens. -/
theorem EnumValue.WellFormed.spells {value : EnumValue} (h : value.WellFormed) :
    Spells value.print value.tokens := by
  have hparts := Spells.joinPresent (.cons (spells_name h.name)
    (.cons (spells_directives h.directives) .nil))
  have hall := leads_description h.description _ _ hparts
  simpa [EnumValue.print, EnumValue.tokens, EnumValue.leadingTokens] using hall

/-- A printed member of any kind spells its tokens. -/
theorem Member.WellFormed.spells {kind : BlockKind} {member : Member}
    (h : member.WellFormed kind) : Spells member.print member.tokens := by
  cases h with
  | object h => exact h.spells
  | interface h => exact h.spells
  | input h => exact h.spells
  | value h => exact h.spells

end SchemaStitch

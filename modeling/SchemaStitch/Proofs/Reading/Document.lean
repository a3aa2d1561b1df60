import Mathlib.Data.List.Chain
import SchemaStitch.Proofs.Reading.Definition

/-! # Documents are read back

    Definitions one after the other are read from their tokens iff no two neighbours clash
    (`parse_iff`): a definition that is open must not stand before a query without a word.
    If it does, it takes the brace of the query, so what is read there is something
    else. -/

namespace SchemaStitch

/-- An open definition before a definition that starts with a brace. -/
def Definition.Clashes (d e : Definition) : Prop :=
  d.isOpen = true ∧ e.isShorthand = true

namespace Parser

variable {α β : Type}

/-! ## Braces that are taken -/

/-- A punctuator that is current is passed over. -/
theorem skip_of_current {lexeme : Lexeme} {behind rest : List Lexeme} {p : Punctuator}
    {done : Bool} (hl : lexeme.token = .ok (.punctuator p))
    (h : skip p (lexeme :: behind) = .ok (done, rest)) : done = true := by
  obtain ⟨read, middle, hcurrent, h⟩ := ok_of_bind h
  rw [current_eq hl] at hcurrent
  obtain ⟨rfl, rfl⟩ := Prod.mk.inj (Except.ok.inj hcurrent)
  replace h : (if Token.punctuator p = .punctuator p then (do advance; pure true) else pure false :
      Parser Bool) (lexeme :: behind) = .ok (done, rest) := h
  rw [if_pos rfl] at h
  obtain ⟨_, _, -, h⟩ := ok_of_bind h
  exact (ok_of_pure h).1

/-- What stands behind an opening punctuator is read as something. -/
theorem optionalBetween_ne_nil {opening closing : Punctuator} {item : Parser α} {lexeme : Lexeme}
    {behind rest : List Lexeme} {items : List α} (hl : lexeme.token = .ok (.punctuator opening))
    (h : optionalBetween opening item closing (lexeme :: behind) = .ok (items, rest)) :
    items ≠ [] := by
  obtain ⟨done, middle, hskip, h⟩ := ok_of_bind h
  rw [skip_of_current hl hskip] at h
  obtain ⟨first, _, -, h⟩ := ok_of_bind
    (show someUntil (skip closing) item middle = .ok (items, rest) from h)
  obtain ⟨others, _, -, h⟩ := ok_of_bind h
  rw [(ok_of_pure h).1]
  exact List.cons_ne_nil _ _

/-! ## Open definitions -/

/-- Between braces there is at least one member. -/
theorem members_ne_nil {kind : BlockKind} {lexeme : Lexeme} {behind rest : List Lexeme}
    {entries : List (Entry Member)} (hl : lexeme.token = .ok (.punctuator .openBrace))
    (h : members kind (lexeme :: behind) = .ok (entries, rest)) : entries ≠ [] := by
  obtain ⟨items, _, hitems, h⟩ := ok_of_bind h
  rw [(ok_of_pure h).1]
  simpa using optionalBetween_ne_nil hl hitems

/-- An open type goes on with the brace behind it. -/
theorem resumes_openType {type : TypeDefinition} (h : type.WellFormed)
    (ho : type.isOpen = true) (hu : type.members = (Entry.nodes type.members).map .node) :
    ∃ p tail q, typeDefinition? (keywordOf type) = some p
      ∧ type.bareTokens = .name (keywordOf type) :: tail
      ∧ Resumes (p type.description) tail q IsOutside
      ∧ ∀ lexeme behind rest, lexeme.token = .ok (.punctuator .openBrace) →
          q (lexeme :: behind) ≠ .ok (type, rest) := by
  cases type with
  | scalar s => cases ho
  | union u => cases ho
  | block b =>
      have hnodes : Entry.nodes b.members = [] := List.isEmpty_iff.mp ho
      have hnone : b.members = [] := by
        rw [show b.members = (Entry.nodes b.members).map .node from hu, hnodes]
        rfl
      have htokens : (TypeDefinition.block b).bareTokens = .name b.kind.keyword
          :: .name b.name :: (interfaceTokens b.interfaces ++ directiveTokens b.directives) := by
        simp [TypeDefinition.bareTokens, Block.headerTokens, hnodes, encloseTokens]
      refine ⟨_, _, _, typeDefinition?_block b.kind, htokens,
        (resumes_block h).andThen (f := fun block => pure (TypeDefinition.block block)), ?_⟩
      -- a brace right behind opens a list of members, and such a list is never empty
      intro lexeme behind rest hl hread
      obtain ⟨block, _, hblock, hread⟩ := ok_of_bind hread
      obtain ⟨entries, _, hentries, hblock⟩ := ok_of_bind hblock
      obtain rfl := (ok_of_pure hblock).1
      have heq := TypeDefinition.block.inj (ok_of_pure hread).1
      exact members_ne_nil hl hentries ((congrArg Block.members heq).symm.trans hnone)

/-- An open definition takes the brace behind it for its own. -/
theorem resumes_openDefinition {d : Definition} (h : d.WellFormed) (hu : d.Uncommented)
    (ho : d.isOpen = true) :
    ∃ q, Resumes definition d.tokens q IsOutside
      ∧ ∀ lexeme behind rest, lexeme.token = .ok (.punctuator .openBrace) →
          q (lexeme :: behind) ≠ .ok (d, rest) := by
  -- the parser that waits behind the name is that for the kind of definition; only three kinds
  -- can be open
  cases d with
  | schema s => cases ho
  | directive d => cases ho
  | operation o => cases ho
  | fragment f => cases ho
  | type t =>
      obtain ⟨p, tail, q, hp, htail, hresumes, hbrace⟩ := resumes_openType h ho hu
      have hw := describedDefinition?_type t
      rw [hp] at hw
      rw [Definition.tokens, htail]
      refine ⟨_, resumes_described hw t.description (.advance_bind
        (hresumes.andThen (f := fun type => pure (Definition.type type)))), ?_⟩
      -- what it yields before a brace has members, so it is another definition
      intro lexeme behind rest hl hread
      obtain ⟨type, _, htype, hread⟩ := ok_of_bind hread
      obtain rfl := Definition.type.inj (ok_of_pure hread).1
      exact hbrace lexeme behind _ hl htype
  | extendType t =>
      obtain ⟨hw, hdescription, hadds⟩ := h
      obtain ⟨p, tail, q, hp, htail, hresumes, hbrace⟩ := resumes_openType hw ho hu
      rw [hdescription] at hresumes
      rw [Definition.tokens, htail]
      refine ⟨_, resumes_typeExtension hp (keywordOf_ne_schema t)
        (hresumes.andThen (f := fun type =>
          if addsToType type then pure (Definition.extendType type) else unexpected)), ?_⟩
      intro lexeme behind rest hl hread
      obtain ⟨type, _, htype, hread⟩ := ok_of_bind hread
      split at hread
      · obtain rfl := Definition.extendType.inj (ok_of_pure hread).1
        exact hbrace lexeme behind _ hl htype
      · exact failHere_ne_ok hread
  | extendSchema s =>
      obtain ⟨hw, hdescription, hadds⟩ := h
      have hnone : s.operations = [] := List.isEmpty_iff.mp ho
      have htokens : (Definition.extendSchema s).tokens
          = wordToken "extend" :: wordToken "schema" :: directiveTokens s.directives := by
        simp [Definition.tokens, SchemaBlock.bareTokens, hnone, encloseTokens]
      rw [htokens]
      refine ⟨_, resumes_schemaExtension (resumes_schemaExtensionBody hw), ?_⟩
      intro lexeme behind rest hl hread
      obtain ⟨operations, _, hoperations, hread⟩ := ok_of_bind hread
      split at hread
      · exact failHere_ne_ok hread
      · have heq := Definition.extendSchema.inj (ok_of_pure hread).1
        exact optionalBetween_ne_nil hl hoperations
          ((congrArg SchemaBlock.operations heq).symm.trans hnone)

/-! ## Definitions one after the other -/

/-- A token that starts a definition, but for the brace of a query without a word. -/
def Begins (t : Token) : Prop :=
  (∃ literal : StringLiteral, t = literal.token) ∨ ∃ word : Text, word ≠ "implements" ∧ t = wordToken word

theorem Begins.isOutside {t : Token} (h : Begins t) : IsOutside t := by
  rcases h with ⟨literal, rfl⟩ | ⟨word, hw, rfl⟩
  · refine ⟨isFresh_string literal, ?_⟩
    rw [StringLiteral.token]
    split <;> exact fun h => by cases h
  · exact ⟨isFresh_name word, fun h => hw (Token.name.inj h)⟩

theorem Begins.ne_endOfText {t : Token} (h : Begins t) : t ≠ .endOfText := by
  rcases h with ⟨literal, rfl⟩ | ⟨word, -, rfl⟩
  · rw [StringLiteral.token]
    split <;> exact fun h => by cases h
  · exact fun h => by cases h

theorem Begins.ne_openBrace {t : Token} (h : Begins t) : t ≠ .punctuator .openBrace := by
  rcases h with ⟨literal, rfl⟩ | ⟨word, -, rfl⟩
  · exact token_ne_punctuator literal _
  · exact fun h => by cases h

theorem begins_word {word : Text} (h : word ≠ "implements") (others : List Token) :
    Starts (wordToken word :: others) Begins :=
  ⟨_, _, rfl, .inr ⟨word, h, rfl⟩⟩

/-- A definition begins with its description or its keyword. -/
theorem begins_described (description : Option StringLiteral) {word : Text}
    (h : word ≠ "implements") (others : List Token) :
    Starts (descriptionTokens description ++ wordToken word :: others) Begins :=
  starts_described description (fun literal => .inl ⟨literal, rfl⟩) (.inr ⟨word, h, rfl⟩)

theorem keywordOf_ne_implements (type : TypeDefinition) : keywordOf type ≠ "implements" := by
  cases type with
  | scalar s => exact (by decide : ("scalar" : Text) ≠ "implements")
  | block b =>
      show b.kind.keyword ≠ "implements"
      cases b.kind <;> decide
  | union u => exact (by decide : ("union" : Text) ≠ "implements")

/-- A definition starts with a description or a word, unless it is a query without one. -/
theorem starts_definition {d : Definition} (hs : d.isShorthand = false) :
    Starts d.tokens Begins := by
  cases d with
  | schema s => exact begins_described _ (by decide) _
  | type t =>
      obtain ⟨tail, htail⟩ := bareTokens_eq t
      rw [Definition.tokens, htail]
      exact begins_described _ (keywordOf_ne_implements t) _
  | directive d =>
      rw [Definition.tokens, DirectiveDefinition.bareTokens]
      simp only [List.append_assoc, List.cons_append]
      exact begins_described _ (by decide) _
  | extendSchema s => exact begins_word (by decide) _
  | extendType t => exact begins_word (by decide) _
  | operation o =>
      have hword : o.kind.keyword ≠ "implements" := by
        cases o.kind <;> decide
      have hshort : ¬o.isShorthand = true := Bool.eq_false_iff.mp hs
      rw [Definition.tokens, o.tokens_eq, if_neg hshort, List.append_assoc, List.append_assoc]
      exact begins_described _ hword _
  | fragment f =>
      rw [Definition.tokens, Fragment.tokens]
      simp only [List.append_assoc, List.cons_append]
      exact begins_described _ (by decide) _

/-- A shorthand query starts with a brace. -/
theorem starts_shorthand {d : Definition} (h : d.WellFormed) (hs : d.isShorthand = true) :
    Starts d.tokens fun t => t = .punctuator .openBrace := by
  cases d with
  | operation o =>
      rw [Definition.tokens, Operation.tokens_of_isShorthand hs]
      exact starts_selections (Operation.WellFormed.selections h).nonempty
  | schema s => cases hs
  | type t => cases hs
  | directive d => cases hs
  | extendSchema s => cases hs
  | extendType t => cases hs
  | fragment f => cases hs

/-- A definition starts with a token that stands outside of the one before it. -/
theorem starts_outside {d : Definition} (h : d.WellFormed) :
    Starts d.tokens fun t => IsOutside t ∧ t ≠ .endOfText
      ∧ (t = .punctuator .openBrace → d.isShorthand = true) := by
  cases hs : d.isShorthand with
  | false =>
      exact (starts_definition hs).mono fun t ht =>
        ⟨ht.isOutside, ht.ne_endOfText, fun hb => absurd hb ht.ne_openBrace⟩
  | true =>
      refine (starts_shorthand h hs).mono fun t ht => ?_
      rw [ht]
      exact ⟨isOutside_punctuator (by decide), by decide, fun _ => rfl⟩

/-- Lexemes with the given tokens up to the end of a text. -/
def Ends (lexemes : List Lexeme) (tokens : List Token) : Prop :=
  lexemes.map Lexeme.token = (tokens ++ [Token.endOfText]).map .ok

/-- What stands behind a definition may follow it, if it does not clash with it. -/
theorem follows_of_not_clashes {d e : Definition} (he : e.WellFormed) (hc : ¬d.Clashes e)
    {others : List Token} {next : Token → Prop} :
    ∀ t, Opens (e.tokens ++ others) next t → Follows d t := by
  intro t ht
  obtain ⟨houtside, -, hbrace⟩ := (starts_outside he).append.opens ht
  exact ⟨houtside, fun ho heq => hc ⟨ho, hbrace heq⟩⟩

/-- The end of the text may follow any definition. -/
theorem follows_endOfText (d : Definition) : Follows d .endOfText :=
  ⟨⟨fun _ _ h => (by cases h), fun h => by cases h⟩, fun _ h => by cases h⟩

section

variable {d : Definition} {rest : List Definition} {lexemes : List Lexeme}

/-- Lexemes up to the end of a text start with those of the first definition. -/
theorem split_ends {first second : List Token} (h : Ends lexemes (first ++ second)) :
    ∃ front behind, lexemes = front ++ behind ∧ front.map Lexeme.token = first.map .ok
      ∧ Ends behind second := by
  rw [Ends, List.append_assoc] at h
  exact split_front h

/-- What ends with the tokens of several definitions starts with those of the first. -/
theorem ends_cons (h : Ends lexemes ((d :: rest).flatMap Definition.tokens)) :
    ∃ front lexeme behind t, lexemes = front ++ lexeme :: behind
      ∧ front.map Lexeme.token = d.tokens.map .ok ∧ lexeme.token = .ok t
      ∧ Opens (rest.flatMap Definition.tokens ++ [.endOfText]) Anything t
      ∧ Ends (lexeme :: behind) (rest.flatMap Definition.tokens) := by
  rw [List.flatMap_cons] at h
  obtain ⟨front, after, rfl, hfront, hafter⟩ := split_ends h
  cases hrest : rest.flatMap Definition.tokens with
  | nil =>
      rw [hrest] at hafter
      obtain ⟨lexeme, behind, rfl, ht, -⟩ := cons_front hafter
      exact ⟨front, lexeme, behind, _, rfl, hfront, ht, rfl, hafter⟩
  | cons u others =>
      rw [hrest] at hafter
      obtain ⟨lexeme, behind, rfl, ht, -⟩ := cons_front hafter
      exact ⟨front, lexeme, behind, _, rfl, hfront, ht, rfl, hafter⟩

/-- A definition that does not clash with the next one is read, and the others are left. -/
theorem definition_of_ends (hl : Ends lexemes ((d :: rest).flatMap Definition.tokens))
    (h : ∀ e ∈ d :: rest, e.WellFormed) (hu : d.Uncommented)
    (hc : ∀ e ∈ rest.head?, ¬d.Clashes e) :
    ∃ behind, definition lexemes = .ok (d, behind)
      ∧ Ends behind (rest.flatMap Definition.tokens) := by
  obtain ⟨front, lexeme, behind, t, rfl, hfront, ht, hopens, hends⟩ := ends_cons hl
  refine ⟨_, reads_definition (h d (List.mem_cons_self ..)) hu front lexeme behind t hfront ht ?_,
    hends⟩
  cases rest with
  | nil =>
      rw [show t = .endOfText from hopens]
      exact follows_endOfText d
  | cons e others =>
      rw [List.flatMap_cons, List.append_assoc] at hopens
      exact follows_of_not_clashes (h e (by simp)) (hc e rfl) t hopens

/-- A definition that clashes with the next one is not read. -/
theorem definition_of_clashes {e : Definition}
    (hl : Ends lexemes ((d :: e :: rest).flatMap Definition.tokens))
    (h : ∀ e' ∈ d :: e :: rest, e'.WellFormed) (hu : d.Uncommented) (hc : d.Clashes e)
    (behind : List Lexeme) : definition lexemes ≠ .ok (d, behind) := by
  obtain ⟨front, lexeme, after, t, rfl, hfront, ht, hopens, -⟩ := ends_cons hl
  obtain ⟨q, hresumes, hbrace⟩ := resumes_openDefinition (h d (List.mem_cons_self ..)) hu hc.1
  rw [List.flatMap_cons, List.append_assoc] at hopens
  have hstart := (starts_shorthand (h e (by simp)) hc.2).append.opens hopens
  have houtside : IsOutside t := hstart ▸ isOutside_punctuator (by decide)
  rw [hresumes front lexeme after t hfront ht houtside]
  exact hbrace lexeme after behind (hstart ▸ ht)

/-- No two neighbours clash. -/
def Compatible (definitions : List Definition) : Prop :=
  definitions.IsChain fun d e => ¬d.Clashes e

/-- Without shorthand queries, definitions can stand in any order. -/
theorem compatible_of_not_shorthand {definitions : List Definition}
    (h : ∀ d ∈ definitions, d.isShorthand = false) : Compatible definitions := by
  refine List.Pairwise.isChain (List.pairwise_of_forall_mem_list fun d _ e he hc => ?_)
  exact Bool.false_ne_true ((h e he).symm.trans hc.2)

/-- A definition and what is behind it are read iff no two neighbours clash, given the same
    for what is behind it. -/
theorem cons_iff {p : Parser (List Definition)}
    (hp : ∀ behind, Ends behind (rest.flatMap Definition.tokens) →
      ((∃ after, p behind = .ok (rest, after)) ↔ Compatible rest))
    (hl : Ends lexemes ((d :: rest).flatMap Definition.tokens))
    (h : ∀ e ∈ d :: rest, e.WellFormed) (hu : d.Uncommented) :
    (∃ after, (do
        let first ← definition
        let rest ← p
        pure (first :: rest) : Parser (List Definition)) lexemes = .ok (d :: rest, after))
      ↔ Compatible (d :: rest) := by
  rw [Compatible, List.isChain_cons]
  constructor
  · rintro ⟨after, hread⟩
    obtain ⟨first, middle, hfirst, hread⟩ := ok_of_bind hread
    obtain ⟨others, last, hothers, hread⟩ := ok_of_bind hread
    obtain ⟨rfl, rfl⟩ := List.cons.inj (ok_of_pure hread).1
    -- the first definition was read, so it does not clash
    have hnext : ∀ e ∈ rest.head?, ¬d.Clashes e := by
      intro e he hc
      obtain ⟨behind, rfl⟩ := List.head?_eq_some_iff.mp he
      exact definition_of_clashes hl h hu hc middle hfirst
    obtain ⟨behind, hdefinition, hends⟩ := definition_of_ends hl h hu hnext
    rw [hdefinition] at hfirst
    obtain ⟨-, rfl⟩ := Prod.mk.inj (Except.ok.inj hfirst)
    exact ⟨hnext, (hp behind hends).mp ⟨last, hothers⟩⟩
  · rintro ⟨hnext, htail⟩
    obtain ⟨behind, hdefinition, hends⟩ := definition_of_ends hl h hu hnext
    obtain ⟨after, hrest⟩ := (hp behind hends).mpr htail
    refine ⟨after, ?_⟩
    rw [run_bind hdefinition, run_bind hrest]
    rfl

end

/-- Where no tokens are left, the text is at its end. -/
theorem atEnd_of_ends_nil {lexemes : List Lexeme} (h : Ends lexemes []) :
    atEnd lexemes = .ok (true, lexemes) := by
  obtain ⟨lexeme, behind, rfl, ht, -⟩ := cons_front h
  exact run_bind (current_eq ht behind)

/-- Where tokens are left, the text is not at its end. -/
theorem atEnd_of_starts {lexemes : List Lexeme} {tokens : List Token}
    (hs : Starts tokens fun t => t ≠ .endOfText) (h : Ends lexemes tokens) :
    atEnd lexemes = .ok (false, lexemes) := by
  obtain ⟨t, others, rfl, ht⟩ := hs
  obtain ⟨lexeme, behind, rfl, hlexeme, -⟩ := cons_front h
  have hread := run_bind (f := fun found => pure (decide (found.1 = Token.endOfText)))
    (current_eq hlexeme behind)
  rw [decide_eq_false ht] at hread
  exact hread

/-- Definitions are read up to the end of a text iff no two neighbours clash. -/
theorem itemsWithin_iff {definitions : List Definition} {lexemes : List Lexeme} {bound : Nat}
    (hl : Ends lexemes (definitions.flatMap Definition.tokens))
    (h : ∀ d ∈ definitions, d.WellFormed) (hu : ∀ d ∈ definitions, d.Uncommented)
    (hb : definitions.length < bound) :
    (∃ after, itemsWithin atEnd definition bound lexemes = .ok (definitions, after))
      ↔ Compatible definitions := by
  induction definitions generalizing lexemes bound with
  | nil =>
      obtain ⟨bound, rfl⟩ : ∃ n, bound = n + 1 := ⟨bound - 1, by simp at hb; omega⟩
      have hread : itemsWithin atEnd definition (bound + 1) lexemes = .ok ([], lexemes) :=
        run_bind (atEnd_of_ends_nil hl)
      exact ⟨fun _ => .nil, fun _ => ⟨lexemes, hread⟩⟩
  | cons d rest ih =>
      obtain ⟨bound, rfl⟩ : ∃ n, bound = n + 1 := ⟨bound - 1, by simp at hb; omega⟩
      have hshort : rest.length < bound := by simp at hb; omega
      have hstarts : Starts (d.tokens ++ rest.flatMap Definition.tokens) fun t => t ≠ .endOfText :=
        ((starts_outside (h d (List.mem_cons_self ..))).mono fun _ ht => ht.2.1).append
      -- a definition starts, so the row has not ended
      have hstep : itemsWithin atEnd definition (bound + 1) lexemes
          = (do
            let first ← definition
            let rest ← itemsWithin atEnd definition bound
            pure (first :: rest) : Parser (List Definition)) lexemes :=
        run_bind (atEnd_of_starts hstarts hl)
      rw [hstep]
      exact cons_iff (fun behind hbehind => ih hbehind
        (fun e he => h e (List.mem_cons_of_mem _ he))
        (fun e he => hu e (List.mem_cons_of_mem _ he)) hshort) hl h (hu d (List.mem_cons_self ..))

/-- Every definition has a token. -/
theorem length_le_flatMap {definitions : List Definition}
    (h : ∀ d ∈ definitions, d.WellFormed) :
    definitions.length ≤ (definitions.flatMap Definition.tokens).length := by
  induction definitions with
  | nil => exact Nat.zero_le _
  | cons d rest ih =>
      obtain ⟨t, others, htokens, -⟩ := starts_outside (h d (List.mem_cons_self ..))
      have hrest := ih fun e he => h e (List.mem_cons_of_mem _ he)
      rw [List.flatMap_cons, htokens]
      simp only [List.length_cons, List.length_append]
      omega

/-- One definition or more are read from a whole text iff no two neighbours clash. -/
theorem someUntil_iff {definitions : List Definition} {lexemes : List Lexeme}
    (hne : definitions ≠ []) (hl : Ends lexemes (definitions.flatMap Definition.tokens))
    (h : ∀ d ∈ definitions, d.WellFormed) (hu : ∀ d ∈ definitions, d.Uncommented) :
    (∃ after, someUntil atEnd definition lexemes = .ok (definitions, after))
      ↔ Compatible definitions := by
  obtain ⟨d, rest, rfl⟩ := List.exists_cons_of_ne_nil hne
  have hrest : ∀ e ∈ rest, e.WellFormed := fun e he => h e (List.mem_cons_of_mem _ he)
  refine cons_iff (fun behind hbehind => ?_) hl h (hu d (List.mem_cons_self ..))
  refine itemsWithin_iff hbehind hrest (fun e he => hu e (List.mem_cons_of_mem _ he)) ?_
  have hlength := congrArg List.length hbehind
  have hle := length_le_flatMap hrest
  simp only [List.length_map, List.length_append, List.length_singleton] at hlength
  omega

end Parser

open SchemaStitch.Parser

/-- A text that spells well-formed definitions is read as just these iff no two neighbours
    clash. -/
theorem Document.parse_iff {definitions : List Definition} {text : Text}
    (hs : Spells text (definitions.flatMap Definition.tokens)) (hne : definitions ≠ [])
    (h : ∀ d ∈ definitions, d.WellFormed) (hu : ∀ d ∈ definitions, d.Uncommented) :
    Document.parse text = .ok ⟨definitions.map .node, [text]⟩ ↔ Compatible definitions := by
  have hends : Ends (Lexer.lexemes text) (definitions.flatMap Definition.tokens) := by
    have hscan := hs.scan_append isBounded_nil
    rw [List.append_nil] at hscan
    rw [Ends, List.map_append]
    exact hscan
  rw [← someUntil_iff hne hends h hu, Document.parse, whole]
  cases hread : someUntil atEnd definition (Lexer.lexemes text) with
  | error fault => exact ⟨fun heq => (by cases heq), fun ⟨_, heq⟩ => by cases heq⟩
  | ok read =>
      obtain ⟨items, after⟩ := read
      constructor
      · intro heq
        have hitems := congrArg Document.definitions (Except.ok.inj heq)
        simp only [Document.definitions, Entry.nodes_map_node] at hitems
        exact ⟨after, by rw [hitems]⟩
      · rintro ⟨_, heq⟩
        obtain ⟨rfl, -⟩ := Prod.mk.inj (Except.ok.inj heq)
        rfl

end SchemaStitch

import SchemaStitch.Proofs.Reading.Member
import SchemaStitch.Proofs.Repeats
import SchemaStitch.Proofs.RoundTrip

/-! # Signatures tell members apart

    Whether two members say the same is decided by their printed forms.  A printed form spells
    one sequence of tokens, and one member only is read from these, so nothing that differs is
    taken for the same (`Member.signature_eq_iff`).

    A field without arguments and a field of an input type may be printed alike, although they
    never stand in one type.  They have everything else in common
    (`Member.content_of_signature`). -/

namespace SchemaStitch

open SchemaStitch.Parser

/-! ## Reading is unique -/

namespace Parser

variable {α : Type} {p : Parser α} {tokens : List Token} {a b : α} {first second : Token → Prop}

/-- A parser reads one value from tokens. -/
theorem reads_unique (ha : Reads p tokens a first) (hb : Reads p tokens b second) {t : Token}
    (h1 : first t) (h2 : second t) : a = b := by
  have hfront : (tokens.map fun u => (⟨.ok u, 0, 0⟩ : Lexeme)).map Lexeme.token
      = tokens.map .ok := by
    rw [List.map_map]
    rfl
  have hreadA := ha _ ⟨.ok t, 0, 0⟩ [] t hfront rfl h1
  have hreadB := hb _ ⟨.ok t, 0, 0⟩ [] t hfront rfl h2
  exact (ok_of_pure (hreadB.symm.trans hreadA)).1

theorem isFresh_endOfText : IsFresh .endOfText := by
  intro p _ h
  cases h

end Parser

/-! ## What a member says -/

/-- What a member says apart from its description, whichever kind of member says it. -/
structure Member.Content where
  name : Text
  arguments : List InputValue
  type : Option TypeRef
  defaultValue : Option Value
  directives : List Directive

/-- The kinds of members. -/
inductive MemberKind
  | field | input | value
  deriving DecidableEq

namespace Member

/-- The kind of a member. -/
def kind : Member → MemberKind
  | .field _ => .field
  | .input _ => .input
  | .value _ => .value

/-- What a member says. -/
def content : Member → Content
  | .field f => ⟨f.name, f.arguments, some f.type, none, f.directives⟩
  | .input i => ⟨i.name, [], some i.type, i.defaultValue, i.directives⟩
  | .value v => ⟨v.name, [], none, none, v.directives⟩

/-- Nothing but the kind and the description of a member is left out of what it says. -/
theorem withoutDescription_eq_iff {member other : Member} :
    member.withoutDescription = other.withoutDescription
      ↔ member.kind = other.kind ∧ member.content = other.content := by
  cases member <;> cases other <;>
    simp [withoutDescription, kind, content]

/-! ## Printed forms -/

variable {member other : Member} {kind otherKind : BlockKind}

/-- A signature spells the tokens of the member without its description. -/
theorem WellFormed.spells_signature (h : member.WellFormed kind) :
    Spells member.signature member.withoutDescription.tokens :=
  h.withoutDescription.spells

/-- Members with the same signature have the same tokens but for descriptions, as printing and
    reading agree. -/
theorem tokens_of_signature (h : member.WellFormed kind) (ho : other.WellFormed otherKind)
    (hs : member.signature = other.signature) :
    member.withoutDescription.tokens = other.withoutDescription.tokens := by
  have hspells := ho.spells_signature
  rw [← hs] at hspells
  exact h.spells_signature.unique hspells

/-- In one type, members with the same tokens differ in their descriptions only. -/
theorem withoutDescription_of_tokens (h : member.WellFormed kind) (ho : other.WellFormed kind)
    (ht : member.withoutDescription.tokens = other.withoutDescription.tokens) :
    member.withoutDescription = other.withoutDescription := by
  have hread := reads_member h.withoutDescription
  rw [ht] at hread
  exact reads_unique hread (reads_member ho.withoutDescription) isFresh_endOfText
    isFresh_endOfText

end Member

/-! ## Members of different kinds -/

section

variable {field : Field} {input : InputValue} {value : EnumValue}

/-- A field without its description starts with its name. -/
theorem tokens_field (field : Field) :
    (Member.field field).withoutDescription.tokens
      = .name field.name :: (argumentDefinitionTokens field.arguments
        ++ .punctuator .colon :: (field.type.tokens ++ directiveTokens field.directives)) := by
  simp [Member.withoutDescription, Member.tokens, Field.tokens, Field.leadingTokens,
    descriptionTokens]

/-- An input field without its description is a name, a colon, its type and what may follow that. -/
theorem tokens_input (input : InputValue) :
    (Member.input input).withoutDescription.tokens
      = .name input.name :: .punctuator .colon :: (input.type.tokens
        ++ (defaultTokens input.defaultValue ++ directiveTokens input.directives)) := by
  simp [Member.withoutDescription, Member.tokens, InputValue.tokens, InputValue.leadingTokens,
    descriptionTokens]

/-- An enum value without its description is a name and its directives. -/
theorem tokens_value (value : EnumValue) :
    (Member.value value).withoutDescription.tokens
      = .name value.name :: directiveTokens value.directives := by
  simp [Member.withoutDescription, Member.tokens, EnumValue.tokens, EnumValue.leadingTokens,
    descriptionTokens]

/-- Directives start with an at sign. -/
theorem directiveTokens_ne {directives : List Directive} {p : Punctuator} (hp : p ≠ .atSign)
    (rest : List Token) : directiveTokens directives ≠ .punctuator p :: rest := by
  intro h
  cases directives with
  | nil => cases h
  | cons directive others => exact hp (Token.punctuator.inj (List.cons.inj h).1).symm

/-- A field without arguments, as it would stand in an input type. -/
def Field.asInput (field : Field) : InputValue :=
  ⟨none, field.name, field.type, none, field.directives⟩

/-- A field without arguments can be read as an input field. -/
theorem Field.WellFormed.asInput (h : field.WellFormed) : field.asInput.WellFormed where
  description := fun _ hd => by cases hd
  name := h.name
  type := h.type
  defaultValue := fun _ hd => by cases hd
  directives := h.directives

/-- A field that is written like a field of an input type has no arguments, and says the same. -/
theorem content_of_tokens_input (hf : field.WellFormed) (hi : input.WellFormed)
    (h : (Member.field field).withoutDescription.tokens
      = (Member.input input).withoutDescription.tokens) :
    (Member.field field).content = (Member.input input).content := by
  have hnone : field.arguments = [] := by
    rw [tokens_field, tokens_input] at h
    cases harguments : field.arguments with
    | nil => rfl
    | cons argument rest =>
        rw [harguments] at h
        -- a parenthesis stands where a colon should
        have hsecond := (List.cons.inj (List.cons.inj h).2).1
        cases hsecond
  have htokens : (Member.input field.asInput).withoutDescription.tokens
      = (Member.input input).withoutDescription.tokens := by
    rw [← h, tokens_field, hnone]
    exact tokens_input field.asInput
  have hsame := Member.withoutDescription_of_tokens (.input hf.asInput) (.input hi) htokens
  calc (Member.field field).content
      = (Member.input field.asInput).content := by rw [Member.content, hnone]; rfl
    _ = (Member.input input).content := (Member.withoutDescription_eq_iff.mp hsame).2

/-- A value of an enum is written like no field. -/
theorem tokens_field_ne_value :
    (Member.field field).withoutDescription.tokens
      ≠ (Member.value value).withoutDescription.tokens := by
  intro h
  rw [tokens_field, tokens_value] at h
  have hbehind := (List.cons.inj h).2
  cases harguments : field.arguments with
  | nil =>
      rw [harguments] at hbehind
      exact directiveTokens_ne (by decide) _ hbehind.symm
  | cons argument rest =>
      rw [harguments] at hbehind
      exact directiveTokens_ne (by decide) _ hbehind.symm

/-- Input fields and enum values differ in their tokens: only the first have a colon. -/
theorem tokens_input_ne_value :
    (Member.input input).withoutDescription.tokens
      ≠ (Member.value value).withoutDescription.tokens := by
  intro h
  rw [tokens_input, tokens_value] at h
  exact directiveTokens_ne (by decide) _ (List.cons.inj h).2.symm

end

namespace Member

variable {member other : Member} {kind otherKind : BlockKind}

theorem wellFormed_field {field : Field} (h : (Member.field field).WellFormed kind) :
    field.WellFormed := by
  cases h with
  | object hf => exact hf
  | interface hf => exact hf

theorem wellFormed_input {input : InputValue} (h : (Member.input input).WellFormed kind) :
    input.WellFormed := by
  cases h with
  | input hi => exact hi

theorem wellFormed_value {value : EnumValue} (h : (Member.value value).WellFormed kind) :
    value.WellFormed := by
  cases h with
  | value hv => exact hv

/-- Members with the same signature say the same. -/
theorem content_of_signature (h : member.WellFormed kind) (ho : other.WellFormed otherKind)
    (hs : member.signature = other.signature) : member.content = other.content := by
  have ht := tokens_of_signature h ho hs
  have hsame : ∀ {common : BlockKind}, member.WellFormed common → other.WellFormed common →
      member.content = other.content := fun hm hc =>
    (withoutDescription_eq_iff.mp (withoutDescription_of_tokens hm hc ht)).2
  -- members of one kind can be read in one type; of others, only fields look alike
  cases member with
  | field f =>
      cases other with
      | field g => exact hsame (.object (wellFormed_field h)) (.object (wellFormed_field ho))
      | input i => exact content_of_tokens_input (wellFormed_field h) (wellFormed_input ho) ht
      | value _ => exact absurd ht tokens_field_ne_value
  | input i =>
      cases other with
      | field f =>
          exact (content_of_tokens_input (wellFormed_field ho) (wellFormed_input h) ht.symm).symm
      | input j => exact hsame (.input (wellFormed_input h)) (.input (wellFormed_input ho))
      | value _ => exact absurd ht tokens_input_ne_value
  | value v =>
      cases other with
      | field _ => exact absurd ht.symm tokens_field_ne_value
      | input _ => exact absurd ht.symm tokens_input_ne_value
      | value w => exact hsame (.value (wellFormed_value h)) (.value (wellFormed_value ho))

/-- Members of one kind have the same signature iff they differ in their descriptions at most. -/
theorem signature_eq_iff (h : member.WellFormed kind) (ho : other.WellFormed otherKind)
    (hk : member.kind = other.kind) :
    member.signature = other.signature
      ↔ member.withoutDescription = other.withoutDescription := by
  constructor
  · intro hs
    exact withoutDescription_eq_iff.mpr ⟨hk, content_of_signature h ho hs⟩
  · intro hsame
    rw [← signature_withoutDescription member, hsame, signature_withoutDescription]

end Member

/-! ## What is dropped -/

/-- The members of the types that a document defines or extends can be read. -/
theorem Definition.WellFormed.body {d : Definition} (h : d.WellFormed) {member : Member}
    (hm : member ∈ Entry.nodes d.body) : ∃ kind, member.WellFormed kind := by
  have htype : ∀ {type : TypeDefinition}, type.WellFormed → member ∈ Entry.nodes type.members →
      ∃ kind, member.WellFormed kind := by
    intro type hw hmem
    cases type with
    | block b => exact ⟨b.kind, hw.members member hmem⟩
    | scalar _ => cases hmem
    | union _ => cases hmem
  cases d with
  | type t => exact htype h hm
  | extendType t => exact htype h.1 hm
  | _ => cases hm

namespace Member

/-- A member of a type that a text defines or extends. -/
def IsRead (member : Member) : Prop :=
  ∃ text document, Document.parse text = .ok document
    ∧ ∃ d ∈ document.definitions, member ∈ Entry.nodes d.body

/-- A member that was read is well formed. -/
theorem IsRead.wellFormed {member : Member} (h : member.IsRead) :
    ∃ kind, member.WellFormed kind := by
  obtain ⟨text, document, hparse, d, hd, hmember⟩ := h
  exact ((Document.parse_yields hparse).2.2 d hd).1.body hmember

/-- The positions of the members that no earlier one has the name and the signature of. -/
def keptPositions (members : List Member) : List Nat :=
  firstPositions (members.map key)

/-- The members that are kept are those at kept positions. -/
theorem nodes_dedupe_eq_filterMap (entries : List (Entry Member)) :
    Entry.nodes (dedupe entries)
      = (keptPositions (Entry.nodes entries)).filterMap ((Entry.nodes entries)[·]?) := by
  rw [nodes_dedupe, firsts_eq_filterMap]
  rfl

/-- Where members are dropped, others that say the same stay. -/
structure DropsOnlyAlike (entries : List (Entry Member)) : Prop where
  kept : Entry.nodes (dedupe entries)
    = (keptPositions (Entry.nodes entries)).filterMap ((Entry.nodes entries)[·]?)
  /-- In front of what is dropped stays a member that says the same, and that is the same apart
      from descriptions if the two are of one kind. -/
  dropped : ∀ i member, (Entry.nodes entries)[i]? = some member →
    i ∉ keptPositions (Entry.nodes entries) →
      ∃ j < i, j ∈ keptPositions (Entry.nodes entries)
        ∧ ∃ earlier, (Entry.nodes entries)[j]? = some earlier
          ∧ earlier.content = member.content
          ∧ (earlier.kind = member.kind → earlier.withoutDescription = member.withoutDescription)
  /-- A signature tells all that a member says, and its kind is known from the type. -/
  signatures : ∀ member ∈ Entry.nodes entries, ∀ other ∈ Entry.nodes entries,
    (member.signature = other.signature → member.content = other.content)
      ∧ (member.kind = other.kind → (member.signature = other.signature
        ↔ member.withoutDescription = other.withoutDescription))

/-- Of members that were read, only such are dropped as differ from one that stays in their
    descriptions. -/
theorem dedupe_dropsOnlyAlike {entries : List (Entry Member)}
    (h : ∀ member ∈ Entry.nodes entries, member.IsRead) : DropsOnlyAlike entries := by
  refine ⟨nodes_dedupe_eq_filterMap entries, ?_, ?_⟩
  · intro i member hi hdropped
    have hlt : i < ((Entry.nodes entries).map key).length := by
      rw [List.length_map]
      exact (List.getElem?_eq_some_iff.mp hi).1
    obtain ⟨j, hj, hfirst, hkey⟩ := exists_firstPosition hlt
    have hne : j ≠ i := fun heq => hdropped (heq ▸ hfirst)
    rw [List.getElem?_map, List.getElem?_map, hi] at hkey
    obtain ⟨earlier, hearlier, hsame⟩ := Option.map_eq_some_iff.mp hkey
    obtain ⟨kind, hw⟩ := (h member (List.mem_of_getElem? hi)).wellFormed
    obtain ⟨earlierKind, hwe⟩ := (h earlier (List.mem_of_getElem? hearlier)).wellFormed
    have hcontent := content_of_signature hwe hw (congrArg Prod.snd hsame)
    exact ⟨j, Nat.lt_of_le_of_ne hj hne, hfirst, earlier, hearlier, hcontent,
      fun hk => withoutDescription_eq_iff.mpr ⟨hk, hcontent⟩⟩
  · intro member hmember other hother
    obtain ⟨kind, hw⟩ := (h member hmember).wellFormed
    obtain ⟨otherKind, hwo⟩ := (h other hother).wellFormed
    exact ⟨content_of_signature hw hwo, signature_eq_iff hw hwo⟩

/-- The members of a document that was read were read. -/
theorem isRead_of_parse {text : Text} {document : Document} (h : Document.parse text = .ok document)
    {member : Member} (hm : member ∈ Entry.nodes (document.definitions.flatMap Definition.body)) :
    member.IsRead := by
  rw [Entry.nodes, List.filterMap_flatMap] at hm
  obtain ⟨d, hd, hmember⟩ := List.mem_flatMap.mp hm
  exact ⟨text, document, h, d, hd, hmember⟩

/-- Of three fields, the second one differs from the first one in its description only. -/
theorem dedupe_dropsOnlyAlike_fields :
    let text : Text :=
      r#"type A { f(a: [Int!] = [1]): B @c "again" f(a: [Int!] = [1]): B @c f: B }"#
    ∃ document, Document.parse text = .ok document
      ∧ (Entry.nodes (document.definitions.flatMap Definition.body)).length = 3
      ∧ (Entry.nodes (dedupe (document.definitions.flatMap Definition.body))).length = 2
      ∧ (∀ member ∈ Entry.nodes (document.definitions.flatMap Definition.body), member.IsRead)
      ∧ DropsOnlyAlike (document.definitions.flatMap Definition.body) := by
  intro text
  have hparse : (Document.parse text).isOk = true := by decide +kernel +zetaReduce
  obtain ⟨document, hdocument⟩ := exists_document hparse
  have hread : ∀ member ∈ Entry.nodes (document.definitions.flatMap Definition.body),
      member.IsRead := fun _ hm => isRead_of_parse hdocument hm
  refine ⟨document, hdocument, ?_, ?_, hread, dedupe_dropsOnlyAlike hread⟩
  · rw [← definitionsOf_eq hdocument]
    decide +kernel +zetaReduce
  · rw [← definitionsOf_eq hdocument]
    decide +kernel +zetaReduce

end Member

end SchemaStitch

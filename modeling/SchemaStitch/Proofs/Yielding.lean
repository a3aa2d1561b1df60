import SchemaStitch.Proofs.Reading

/-! # What is read is well formed

    The tokens of a text are legal: names are names and numbers are numerals.  A parser
    yields values with a property (`Parser.Yields`) if every value that it takes from legal
    lexemes has it.  Parsers that run one after the other hand these properties on
    (`Yields.bind`), so the proofs below go through each parser from top to bottom, and
    a document that is read has well-formed definitions without comments
    (`Document.parse_yields`). -/

namespace SchemaStitch.Parser

variable {α β : Type}

/-! ## One after the other -/

/-- Lexemes whose tokens are legal. -/
def AllLegal (lexemes : List Lexeme) : Prop :=
  ∀ lexeme ∈ lexemes, ∀ t, lexeme.token = .ok t → t.IsLegal

/-- What a parser takes from legal lexemes has a property. -/
def Yields (p : Parser α) (property : α → Prop) : Prop :=
  ∀ lexemes a rest, AllLegal lexemes → p lexemes = .ok (a, rest) → property a ∧ AllLegal rest

/-- What a parser takes from legal lexemes that start with a token has a property. -/
def YieldsAt (t : Token) (p : Parser α) (property : α → Prop) : Prop :=
  ∀ lexeme behind a rest, AllLegal (lexeme :: behind) → lexeme.token = .ok t →
    p (lexeme :: behind) = .ok (a, rest) → property a ∧ AllLegal rest

/-- Legal lexemes are legal without the first. -/
theorem AllLegal.tail {lexeme : Lexeme} {rest : List Lexeme} (h : AllLegal (lexeme :: rest)) :
    AllLegal rest :=
  fun other hother => h other (List.mem_cons_of_mem _ hother)

/-- What is current stays so, and it is legal. -/
theorem ok_of_current {lexemes rest : List Lexeme} {found : Token × Nat}
    (h : current lexemes = .ok (found, rest)) :
    rest = lexemes ∧ ∃ lexeme behind, lexemes = lexeme :: behind ∧ lexeme.token = .ok found.1 := by
  cases lexemes with
  | nil => cases h
  | cons lexeme behind =>
      rw [current] at h
      split at h
      · next t ht =>
          obtain ⟨rfl, rfl⟩ := Prod.mk.inj (Except.ok.inj h)
          exact ⟨rfl, lexeme, behind, rfl, ht⟩
      · cases h

namespace Yields

variable {p : Parser α} {f : α → Parser β} {P : α → Prop} {Q : β → Prop} {a : α} {b : β}

/-- A weaker property is yielded as well. -/
theorem mono {P' : α → Prop} (h : Yields p P) (hp : ∀ a, P a → P' a) : Yields p P' := by
  intro lexemes a rest hl hread
  obtain ⟨ha, hrest⟩ := h lexemes a rest hl hread
  exact ⟨hp a ha, hrest⟩

/-- A parser that reads nothing yields the value at hand. -/
theorem pure (h : P a) : Yields (pure a) P := by
  intro lexemes b rest hl hread
  obtain ⟨rfl, rfl⟩ := ok_of_pure hread
  exact ⟨h, hl⟩

/-- One parser hands the property of its value on to the next. -/
theorem bind (hp : Yields p P) (hf : ∀ a, P a → Yields (f a) Q) : Yields (p >>= f) Q := by
  intro lexemes b rest hl hread
  obtain ⟨a, middle, hfirst, hsecond⟩ := ok_of_bind hread
  obtain ⟨ha, hmiddle⟩ := hp lexemes a middle hl hfirst
  exact hf a ha middle b rest hmiddle hsecond

/-- What is done with a value gives it the property that is wanted. -/
theorem map {g : α → β} (hp : Yields p P) (hg : ∀ a, P a → Q (g a)) :
    Yields (p >>= fun a => Pure.pure (g a)) Q :=
  hp.bind fun a ha => .pure (hg a ha)

/-- A parser that fails yields nothing. -/
theorem throw (fault : SyntaxFault × Nat) : Yields (throw fault : Parser α) P :=
  fun _ _ _ _ hread => by cases hread

theorem failHere (fault : Token → SyntaxFault) : Yields (failHere fault : Parser α) P :=
  fun _ _ _ _ hread => absurd hread failHere_ne_ok

/-- Each way of a choice yields the property, given how the choice was made. -/
theorem ite {c : Prop} [Decidable c] {p' : Parser α} (ht : c → Yields p P)
    (hf : ¬c → Yields p' P) : Yields (if c then p else p') P := by
  split
  · next hc => exact ht hc
  · next hc => exact hf hc

/-- What is taken from any legal lexemes may be taken from those that start with a token. -/
theorem atToken {t : Token} (h : Yields p P) : YieldsAt t p P :=
  fun lexeme behind a rest hl _ hread => h (lexeme :: behind) a rest hl hread

/-- The current token is legal. -/
theorem current : Yields current fun found => found.1.IsLegal := by
  intro lexemes found rest hl hread
  obtain ⟨rfl, lexeme, behind, rfl, ht⟩ := ok_of_current hread
  exact ⟨hl lexeme (List.mem_cons_self ..) _ ht, hl⟩

/-- Looking at the current token tells what comes first. -/
theorem current_bind {f : Token × Nat → Parser β}
    (h : ∀ t start, t.IsLegal → YieldsAt t (f (t, start)) Q) :
    Yields (Parser.current >>= f) Q := by
  intro lexemes b rest hl hread
  obtain ⟨⟨t, start⟩, middle, hcurrent, hbehind⟩ := ok_of_bind hread
  obtain ⟨rfl, lexeme, behind, rfl, ht⟩ := ok_of_current hcurrent
  exact h t start (hl lexeme (List.mem_cons_self ..) t ht) lexeme behind b rest hl ht hbehind

/-- The token behind the current one is legal. -/
theorem following : Yields following fun found => found.1.IsLegal := by
  intro lexemes found rest hl hread
  rw [Parser.following.eq_def] at hread
  split at hread
  · next first next behind =>
      cases hcurrent : Parser.current (next :: behind) with
      | error fault =>
          rw [hcurrent] at hread
          cases hread
      | ok read =>
          rw [hcurrent] at hread
          obtain ⟨rfl, rfl⟩ := Prod.mk.inj (Except.ok.inj hread)
          obtain ⟨hlegal, -⟩ := Yields.current _ _ _ hl.tail hcurrent
          exact ⟨hlegal, hl⟩
  · exact Yields.current _ _ _ hl hread

theorem advance : Yields advance fun _ => True := by
  intro lexemes a rest hl hread
  rw [Parser.advance.eq_def] at hread
  split at hread
  · next first next behind =>
      cases hcurrent : Parser.current (next :: behind) with
      | error fault =>
          rw [hcurrent] at hread
          cases hread
      | ok read =>
          rw [hcurrent] at hread
          obtain ⟨-, rfl⟩ := Prod.mk.inj (Except.ok.inj hread)
          exact ⟨trivial, (Yields.current _ _ _ hl.tail hcurrent).2⟩
  · obtain ⟨-, rfl⟩ := Prod.mk.inj (Except.ok.inj hread)
    exact ⟨trivial, hl⟩

end Yields

namespace YieldsAt

variable {t : Token} {p : Parser α} {f : α → Parser β} {P : α → Prop} {Q : β → Prop}

theorem bind (hp : YieldsAt t p P) (hf : ∀ a, P a → Yields (f a) Q) : YieldsAt t (p >>= f) Q := by
  intro lexeme behind b rest hl ht hread
  obtain ⟨a, middle, hfirst, hsecond⟩ := ok_of_bind hread
  obtain ⟨ha, hmiddle⟩ := hp lexeme behind a middle hl ht hfirst
  exact hf a ha middle b rest hmiddle hsecond

theorem ite {c : Prop} [Decidable c] {p' : Parser α} (ht : c → YieldsAt t p P)
    (hf : ¬c → YieldsAt t p' P) : YieldsAt t (if c then p else p') P := by
  split
  · next hc => exact ht hc
  · next hc => exact hf hc

end YieldsAt

/-! ## Single tokens -/

theorem yields_skip (p : Punctuator) : Yields (skip p) fun _ => True :=
  .bind .current fun _ _ => .ite (fun _ => .bind .advance fun _ _ => .pure trivial)
    fun _ => .pure trivial

theorem yields_expect (p : Punctuator) : Yields (expect p) fun _ => True :=
  .bind (yields_skip p) fun _ _ => .ite (fun _ => .failHere _) fun _ => .pure trivial

theorem yields_skipWord (word : Text) : Yields (skipWord word) fun _ => True :=
  .bind .current fun _ _ => .ite (fun _ => .bind .advance fun _ _ => .pure trivial)
    fun _ => .pure trivial

theorem yields_expectWord (word : Text) : Yields (expectWord word) fun _ => True :=
  .bind (yields_skipWord word) fun _ _ => .ite (fun _ => .failHere _) fun _ => .pure trivial

/-- What is read as a name is one. -/
theorem yields_name : Yields name fun value => isName value = true := by
  refine .bind .current fun ⟨t, start⟩ ht => ?_
  cases t with
  | name value => exact .bind .advance fun _ _ => .pure ht
  | _ => exact .failHere _

/-- A name that is read is the current token. -/
theorem yieldsAt_name (t : Token) :
    YieldsAt t name fun value => isName value = true ∧ t.value? = some value := by
  intro lexeme behind value rest hl ht hread
  obtain ⟨hvalue, hrest⟩ := yields_name _ _ _ hl hread
  refine ⟨⟨hvalue, ?_⟩, hrest⟩
  obtain ⟨found, middle, hcurrent, hread⟩ := ok_of_bind hread
  rw [current_eq ht] at hcurrent
  obtain ⟨rfl, rfl⟩ := Prod.mk.inj (Except.ok.inj hcurrent)
  cases t with
  | name word =>
      obtain ⟨_, _, -, hread⟩ := ok_of_bind hread
      rw [(ok_of_pure hread).1]
      rfl
  | _ => exact absurd hread failHere_ne_ok

/-! ## Repetition -/

section

variable {item : Parser α} {atEnd : Parser Bool} {P : α → Prop}

/-- Every item that is read has the property of an item. -/
theorem yields_itemsWithin (he : Yields atEnd fun _ => True) (hi : Yields item P) (bound : Nat) :
    Yields (itemsWithin atEnd item bound) fun items => ∀ a ∈ items, P a := by
  induction bound with
  | zero => exact .failHere _
  | succ bound ih =>
      refine .bind he fun _ _ => .ite (fun _ => .pure fun _ h => by cases h) fun _ => ?_
      refine .bind hi fun a ha => .map ih fun items hitems => ?_
      exact List.forall_mem_cons.mpr ⟨ha, hitems⟩

/-- Every item of a repetition has the property of an item. -/
theorem yields_itemsUntil (he : Yields atEnd fun _ => True) (hi : Yields item P) :
    Yields (itemsUntil atEnd item) fun items => ∀ a ∈ items, P a :=
  fun lexemes => yields_itemsWithin he hi (lexemes.length + 1) lexemes

/-- If at least one item is asked for, there is one. -/
theorem yields_someUntil (he : Yields atEnd fun _ => True) (hi : Yields item P) :
    Yields (someUntil atEnd item) fun items => items ≠ [] ∧ ∀ a ∈ items, P a :=
  .bind hi fun _ ha => .map (yields_itemsUntil he hi) fun _ hitems =>
    ⟨List.cons_ne_nil _ _, List.forall_mem_cons.mpr ⟨ha, hitems⟩⟩

/-- Every item between punctuators has the property of an item. -/
theorem yields_between (opening closing : Punctuator) (hi : Yields item P) :
    Yields (between opening item closing) fun items => ∀ a ∈ items, P a :=
  .bind (yields_expect _) fun _ _ => yields_itemsUntil (yields_skip _) hi

/-- Between punctuators that ask for it, there is at least one item. -/
theorem yields_someBetween (opening closing : Punctuator) (hi : Yields item P) :
    Yields (someBetween opening item closing) fun items => items ≠ [] ∧ ∀ a ∈ items, P a :=
  .bind (yields_expect _) fun _ _ => yields_someUntil (yields_skip _) hi

/-- Every item between optional punctuators has the property of an item. -/
theorem yields_optionalBetween (opening closing : Punctuator) (hi : Yields item P) :
    Yields (optionalBetween opening item closing) fun items => ∀ a ∈ items, P a :=
  .bind (yields_skip _) fun _ _ => .ite
    (fun _ => (yields_someUntil (yields_skip _) hi).mono fun _ h => h.2)
    fun _ => .pure fun _ h => by cases h

/-- There is at least one separated item, and each has the property of an item. -/
theorem yields_separated (separator : Punctuator) (hi : Yields item P) :
    Yields (separated separator item) fun items => items ≠ [] ∧ ∀ a ∈ items, P a :=
  .bind (yields_skip _) fun _ _ => .bind hi fun _ ha =>
    .map (yields_itemsUntil (.map (yields_skip _) fun _ _ => trivial) hi) fun _ hitems =>
      ⟨List.cons_ne_nil _ _, List.forall_mem_cons.mpr ⟨ha, hitems⟩⟩

end

end SchemaStitch.Parser

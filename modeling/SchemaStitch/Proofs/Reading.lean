import SchemaStitch.Proofs.WellFormed

/-! # Reading tokens back

    A parser resumes behind tokens (`Parser.Resumes`) if it takes just these tokens from
    the front of any lexemes and goes on as another parser, provided that the token behind
    them is one that may follow.  It reads a value from tokens (`Parser.Reads`) if all that
    is left to do then is to yield the value.  Parsers that read one after the other read
    the tokens one after the other (`Resumes.bind`), as long as what the second one starts
    with may follow the first one. -/

namespace SchemaStitch.Parser

variable {α β : Type}

/-! ## One after the other -/

/-- A token that comes first: the first one of a sequence, or one that may follow an empty
    sequence. -/
def Opens (tokens : List Token) (next : Token → Prop) (t : Token) : Prop :=
  match tokens with
  | [] => next t
  | first :: _ => t = first

/-- What holds of the first token of a sequence holds of whatever comes first. -/
theorem opens_cons {u : Token} {others : List Token} {next property : Token → Prop}
    (h : property u) : ∀ t, Opens (u :: others) next t → property t := by
  intro t ht
  rw [show t = u from ht]
  exact h

/-- Behind the tokens a parser goes on as another one, whenever the token there may
    follow. -/
def Resumes (p : Parser α) (tokens : List Token) (q : Parser α) (next : Token → Prop) : Prop :=
  ∀ (front : List Lexeme) (lexeme : Lexeme) (behind : List Lexeme) (t : Token),
    front.map Lexeme.token = tokens.map .ok → lexeme.token = .ok t → next t →
      p (front ++ lexeme :: behind) = q (lexeme :: behind)

/-- A parser takes tokens and yields a value, whenever the token behind them may follow. -/
abbrev Reads (p : Parser α) (tokens : List Token) (value : α) (next : Token → Prop) : Prop :=
  Resumes p tokens (pure value) next

/-- Any token. -/
def Anything : Token → Prop :=
  fun _ => True

/-- A parser that succeeds leaves the rest to the one behind it. -/
theorem run_bind {p : Parser α} {f : α → Parser β} {lexemes rest : List Lexeme} {value : α}
    (h : p lexemes = .ok (value, rest)) : (p >>= f) lexemes = f value rest := by
  show (p lexemes >>= fun read => f read.1 read.2) = f value rest
  rw [h]
  rfl

/-- The current token is that of the first lexeme, which stays. -/
theorem current_eq {lexeme : Lexeme} {t : Token} (h : lexeme.token = .ok t)
    (rest : List Lexeme) :
    current (lexeme :: rest) = .ok ((t, lexeme.start), lexeme :: rest) := by
  rw [current, h]

/-- Going on takes one lexeme, once the one behind it is known to be a token. -/
theorem advance_eq {next : Lexeme} {t : Token} (h : next.token = .ok t) (lexeme : Lexeme)
    (rest : List Lexeme) : advance (lexeme :: next :: rest) = .ok ((), next :: rest) := by
  rw [advance, current_eq h]
  rfl

/-- If two parsers succeed one after the other, each of them does. -/
theorem ok_of_bind {p : Parser α} {f : α → Parser β} {lexemes rest : List Lexeme} {b : β}
    (h : (p >>= f) lexemes = .ok (b, rest)) :
    ∃ a middle, p lexemes = .ok (a, middle) ∧ f a middle = .ok (b, rest) := by
  cases hp : p lexemes with
  | error fault =>
      have herror : (p >>= f) lexemes = .error fault := by
        show (p lexemes >>= fun read => f read.1 read.2) = .error fault
        rw [hp]
        rfl
      rw [herror] at h
      cases h
  | ok read =>
      obtain ⟨a, middle⟩ := read
      exact ⟨a, middle, rfl, (run_bind hp).symm.trans h⟩

/-- A parser that reads nothing leaves everything. -/
theorem ok_of_pure {a b : α} {lexemes rest : List Lexeme}
    (h : (pure a : Parser α) lexemes = .ok (b, rest)) : b = a ∧ rest = lexemes := by
  obtain ⟨rfl, rfl⟩ := Prod.mk.inj (Except.ok.inj h)
  exact ⟨rfl, rfl⟩

/-- Failing yields nothing. -/
theorem failHere_ne_ok {fault : Token → SyntaxFault} {lexemes rest : List Lexeme} {a : α} :
    failHere fault lexemes ≠ .ok (a, rest) := by
  intro h
  obtain ⟨_, _, -, h⟩ := ok_of_bind h
  cases h

/-- Lexemes with the tokens of two sequences fall into two parts. -/
theorem split_front {front : List Lexeme} {first second : List Token}
    (h : front.map Lexeme.token = (first ++ second).map .ok) :
    ∃ f1 f2, front = f1 ++ f2 ∧ f1.map Lexeme.token = first.map .ok
      ∧ f2.map Lexeme.token = second.map .ok := by
  rw [List.map_append] at h
  obtain ⟨f1, f2, hsplit, h1, h2⟩ := List.map_eq_append_iff.mp h
  exact ⟨f1, f2, hsplit, h1, h2⟩

/-- Lexemes with a token in front. -/
theorem cons_front {front : List Lexeme} {t : Token} {tokens : List Token}
    (h : front.map Lexeme.token = (t :: tokens).map .ok) :
    ∃ lexeme rest, front = lexeme :: rest ∧ lexeme.token = .ok t
      ∧ rest.map Lexeme.token = tokens.map .ok := by
  rw [List.map_cons] at h
  obtain ⟨lexeme, rest, hcons, ht, hrest⟩ := List.map_eq_cons_iff.mp h
  exact ⟨lexeme, rest, hcons, ht, hrest⟩

theorem nil_front {front : List Lexeme} (h : front.map Lexeme.token = ([] : List Token).map .ok) :
    front = [] :=
  List.map_eq_nil_iff.mp h

namespace Resumes

variable {p q : Parser α} {f : α → Parser β} {r : Parser β} {first second tokens : List Token}
  {a : α} {mid next : Token → Prop} {t : Token}

/-- What may follow may be restricted. -/
theorem mono (h : Resumes p tokens q mid) (hm : ∀ t, next t → mid t) : Resumes p tokens q next :=
  fun front lexeme behind t hfront ht hnext => h front lexeme behind t hfront ht (hm t hnext)

/-- What may have anything behind it may have less. -/
theorem relax (h : Resumes p tokens q Anything) : Resumes p tokens q next :=
  h.mono fun _ _ => trivial

/-- A parser that goes on as a second one goes on as what the second one goes on as. -/
theorem trans {p' : Parser α} (hp : Resumes p first p' mid) (hq : Resumes p' second q next)
    (hm : ∀ t, Opens second next t → mid t) : Resumes p (first ++ second) q next := by
  intro front lexeme behind t hfront ht hnext
  obtain ⟨f1, f2, rfl, h1, h2⟩ := split_front hfront
  rw [List.append_assoc, ← hq f2 lexeme behind t h2 ht hnext]
  cases second with
  | nil =>
      rw [nil_front h2]
      exact hp f1 lexeme behind t h1 ht (hm t hnext)
  | cons u others =>
      obtain ⟨head, tail, rfl, hu, -⟩ := cons_front h2
      exact hp f1 head (tail ++ lexeme :: behind) u h1 hu (hm u rfl)

/-- What a parser goes on as, it goes on as before something else, too. -/
theorem andThen (h : Resumes p tokens q next) : Resumes (p >>= f) tokens (q >>= f) next := by
  intro front lexeme behind t hfront ht hnext
  show (p (front ++ lexeme :: behind) >>= fun read => f read.1 read.2)
    = q (lexeme :: behind) >>= fun read => f read.1 read.2
  rw [h front lexeme behind t hfront ht hnext]

/-- A parser reads what its parts read one after the other, if what the second part reads may
    follow the first. -/
theorem bind (hp : Reads p first a mid) (hf : Resumes (f a) second r next)
    (hm : ∀ t, Opens second next t → mid t) : Resumes (p >>= f) (first ++ second) r next :=
  hp.andThen.trans hf hm

/-- Nothing is read for a value that is at hand. -/
theorem pure (a : α) (next : Token → Prop) : Reads (pure a) [] a next := by
  intro front lexeme behind t hfront ht hnext
  rw [nil_front hfront]
  rfl

theorem pure_bind (h : Resumes (f a) tokens r next) : Resumes (Pure.pure a >>= f) tokens r next :=
  h

/-- What is done with a value does not change what is read for it. -/
theorem map {g : α → β} (h : Reads p tokens a next) :
    Reads (p >>= fun x => Pure.pure (g x)) tokens (g a) next := by
  have hbind := h.bind (f := fun x => Pure.pure (g x)) (.pure (g a) next) fun t ht => ht
  rwa [List.append_nil] at hbind

/-- Looking at the current token takes nothing. -/
theorem current_cons {f : Token × Nat → Parser β}
    (h : ∀ start, Resumes (f (t, start)) (t :: tokens) r next) :
    Resumes (current >>= f) (t :: tokens) r next := by
  intro front lexeme behind u hfront hu hnext
  obtain ⟨head, tail, rfl, ht, htail⟩ := cons_front hfront
  rw [List.cons_append, run_bind (current_eq ht _)]
  exact h head.start (head :: tail) lexeme behind u hfront hu hnext

/-- Looking at the current token tells the first of the tokens to be read. -/
theorem current_starts {f : Token × Nat → Parser β} {property : Token → Prop}
    (hs : ∃ t others, tokens = t :: others ∧ property t)
    (h : ∀ t start, property t → Resumes (f (t, start)) tokens r next) :
    Resumes (current >>= f) tokens r next := by
  obtain ⟨t, others, rfl, ht⟩ := hs
  exact .current_cons fun start => h t start ht

/-- Where nothing is left to be read, the current token is the one that follows. -/
theorem current_nil {f : Token × Nat → Parser β}
    (h : ∀ t start, next t → Resumes (f (t, start)) [] r (fun u => u = t)) :
    Resumes (current >>= f) [] r next := by
  intro front lexeme behind t hfront ht hnext
  rw [nil_front hfront, List.nil_append, run_bind (current_eq ht _)]
  exact h t lexeme.start hnext [] lexeme behind t rfl ht rfl

/-- Looking at the token behind the current one takes nothing. -/
theorem following_cons {u : Token} {f : Token × Nat → Parser β}
    (h : ∀ start, Resumes (f (u, start)) (t :: u :: tokens) r next) :
    Resumes (following >>= f) (t :: u :: tokens) r next := by
  intro front lexeme behind v hfront hv hnext
  obtain ⟨head, rest, rfl, ht, hrest⟩ := cons_front hfront
  obtain ⟨second, tail, rfl, hu, htail⟩ := cons_front hrest
  have hfollowing : following (head :: second :: (tail ++ lexeme :: behind))
      = .ok ((u, second.start), head :: second :: (tail ++ lexeme :: behind)) := by
    rw [following, current_eq hu]
    rfl
  rw [List.cons_append, List.cons_append, run_bind hfollowing]
  exact h second.start (head :: second :: tail) lexeme behind v hfront hv hnext

/-- One token is taken, whatever follows. -/
theorem advance (t : Token) : Reads advance [t] () Anything := by
  intro front lexeme behind u hfront hu _
  obtain ⟨head, tail, rfl, -, htail⟩ := cons_front hfront
  rw [nil_front htail]
  exact advance_eq hu head behind

/-- Passing over a token and going on. -/
theorem advance_bind {f : Unit → Parser β} (h : Resumes (f ()) tokens r next) :
    Resumes (Parser.advance >>= f) (t :: tokens) r next :=
  (advance t).bind h fun _ _ => trivial

theorem ite_pos {c : Prop} [Decidable c] {p' : Parser α} (hc : c) (h : Resumes p tokens q next) :
    Resumes (if c then p else p') tokens q next := by
  rwa [if_pos hc]

theorem ite_neg {c : Prop} [Decidable c] {p' : Parser α} (hc : ¬c)
    (h : Resumes p' tokens q next) : Resumes (if c then p else p') tokens q next := by
  rwa [if_neg hc]

end Resumes

/-! ## Single tokens -/

section

variable {f : Bool → Parser β} {tokens : List Token} {b : β} {next : Token → Prop}

/-- A punctuator that is there is skipped. -/
theorem reads_skip (p : Punctuator) : Reads (skip p) [.punctuator p] true Anything :=
  .current_cons fun _ => .ite_pos rfl (.advance_bind (.pure true _))

/-- Nothing is read where another token than the punctuator follows. -/
theorem reads_skip_false (p : Punctuator) :
    Reads (skip p) [] false (fun t => t ≠ .punctuator p) :=
  .current_nil fun _ _ ht => .ite_neg ht (.pure false _)

theorem reads_expect (p : Punctuator) : Reads (expect p) [.punctuator p] () Anything :=
  (reads_skip p).bind (.pure () _) fun _ _ => trivial

/-- A word that is there is skipped. -/
theorem reads_skipWord (word : Text) : Reads (skipWord word) [wordToken word] true Anything :=
  .current_cons fun _ => .ite_pos rfl (.advance_bind (.pure true _))

/-- Nothing is read where another token than the word follows. -/
theorem reads_skipWord_false (word : Text) :
    Reads (skipWord word) [] false (fun t => t ≠ wordToken word) :=
  .current_nil fun _ _ ht => .ite_neg ht (.pure false _)

theorem reads_expectWord (word : Text) : Reads (expectWord word) [wordToken word] () Anything :=
  (reads_skipWord word).bind (.pure () _) fun _ _ => trivial

/-- A name is read as its value. -/
theorem reads_name (value : Text) : Reads name [.name value] value Anything :=
  .current_cons fun _ => .advance_bind (.pure value _)

end

/-! Each of these steps goes on with what is read behind a single token. -/

namespace Resumes

variable {tokens : List Token} {r : Parser β} {next : Token → Prop} {p : Punctuator}

/-- Behind an optional punctuator that is there, reading goes on. -/
theorem skip {f : Bool → Parser β} (h : Resumes (f true) tokens r next) :
    Resumes (Parser.skip p >>= f) (.punctuator p :: tokens) r next :=
  (reads_skip p).bind h fun _ _ => trivial

/-- Reading goes on from the same tokens if they do not open with the punctuator. -/
theorem skip_false {f : Bool → Parser β} (h : Resumes (f false) tokens r next)
    (hp : ∀ t, Opens tokens next t → t ≠ .punctuator p) :
    Resumes (Parser.skip p >>= f) tokens r next :=
  (reads_skip_false p).bind h hp

/-- Behind a punctuator that has to be there, reading goes on. -/
theorem expect {f : Unit → Parser β} (h : Resumes (f ()) tokens r next) :
    Resumes (Parser.expect p >>= f) (.punctuator p :: tokens) r next :=
  (reads_expect p).bind h fun _ _ => trivial

/-- Behind an optional word that is there, reading goes on. -/
theorem skipWord {f : Bool → Parser β} {word : Text} (h : Resumes (f true) tokens r next) :
    Resumes (Parser.skipWord word >>= f) (wordToken word :: tokens) r next :=
  (reads_skipWord word).bind h fun _ _ => trivial

/-- Reading goes on from the same tokens if they do not open with the word. -/
theorem skipWord_false {f : Bool → Parser β} {word : Text} (h : Resumes (f false) tokens r next)
    (hw : ∀ t, Opens tokens next t → t ≠ wordToken word) :
    Resumes (Parser.skipWord word >>= f) tokens r next :=
  (reads_skipWord_false word).bind h hw

theorem expectWord {f : Unit → Parser β} {word : Text} (h : Resumes (f ()) tokens r next) :
    Resumes (Parser.expectWord word >>= f) (wordToken word :: tokens) r next :=
  (reads_expectWord word).bind h fun _ _ => trivial

/-- Behind a name, reading goes on with its value. -/
theorem name {f : Text → Parser β} {value : Text} (h : Resumes (f value) tokens r next) :
    Resumes (Parser.name >>= f) (.name value :: tokens) r next :=
  (reads_name value).bind h fun _ _ => trivial

end Resumes

/-! ## Repetition -/

section

variable {atEnd : Parser Bool} {item : Parser α} {lead last : List Token} {items : List α}
  {tokensOf : α → List Token} {mid next : Token → Prop}

/-- What the end and the beginning of items have to be like for the items to be read one
    after the other: `atEnd` passes over `lead` in front of an item and over `last` behind
    all of them, and what stands behind an item may follow it. -/
structure Repeats (atEnd : Parser Bool) (lead last : List Token) (tokensOf : α → List Token)
    (mid next : Token → Prop) (items : List α) : Prop where
  stops : Reads atEnd last true next
  starts : ∀ a ∈ items, ∃ t others, tokensOf a = t :: others ∧ Reads atEnd lead false (fun u => u = t)
  follow : ∀ t, Opens last next t → mid t
  between : ∀ a ∈ items, ∀ t, Opens (lead ++ tokensOf a) next t → mid t

/-- What holds of a repetition holds of it without the first item. -/
theorem Repeats.tail {a : α} {rest : List α}
    (h : Repeats atEnd lead last tokensOf mid next (a :: rest)) :
    Repeats atEnd lead last tokensOf mid next rest :=
  ⟨h.stops, fun b hb => h.starts b (List.mem_cons_of_mem _ hb), h.follow,
    fun b hb => h.between b (List.mem_cons_of_mem _ hb)⟩

/-- The tokens of items with what leads each of them. -/
def leadTokens (lead : List Token) (tokensOf : α → List Token) (items : List α) : List Token :=
  items.flatMap fun a => lead ++ tokensOf a

/-- Items are read one after the other until the end, if the bound is above their number. -/
theorem reads_itemsWithin (hr : Repeats atEnd lead last tokensOf mid next items)
    (hi : ∀ a ∈ items, Reads item (tokensOf a) a mid) {bound : Nat} (hb : items.length < bound) :
    Reads (itemsWithin atEnd item bound) (leadTokens lead tokensOf items ++ last) items next := by
  induction items generalizing bound with
  | nil =>
      obtain ⟨bound, rfl⟩ : ∃ n, bound = n + 1 := ⟨bound - 1, by simp at hb; omega⟩
      have hend := hr.stops.bind (f := fun done => if done then pure [] else do
        let first ← item
        let rest ← itemsWithin atEnd item bound
        pure (first :: rest)) (.ite_pos rfl (.pure [] next)) (by
          intro t ht
          exact ht)
      rwa [List.append_nil] at hend
  | cons a rest ih =>
      obtain ⟨bound, rfl⟩ : ∃ n, bound = n + 1 := ⟨bound - 1, by simp at hb; omega⟩
      obtain ⟨t, others, htokens, hlead⟩ := hr.starts a (List.mem_cons_self ..)
      have hshort : rest.length < bound := by simp at hb; omega
      have hrest := ih hr.tail (fun b hb => hi b (List.mem_cons_of_mem _ hb)) hshort
      -- behind an item stands what leads the next one, or what ends the row
      have hfollow : ∀ u, Opens (leadTokens lead tokensOf rest ++ last) next u → mid u := by
        cases rest with
        | nil => exact hr.follow
        | cons b rest =>
            intro u hu
            refine hr.between b (List.mem_cons_of_mem _ (List.mem_cons_self ..)) u ?_
            obtain ⟨v, more, hv, -⟩ := hr.starts b (List.mem_cons_of_mem _ (List.mem_cons_self ..))
            rw [leadTokens, List.flatMap_cons, hv] at hu
            rw [hv]
            cases lead with
            | nil => exact hu
            | cons l ls => exact hu
      have hall := (hi a (List.mem_cons_self ..)).bind (f := fun first => do
        let rest ← itemsWithin atEnd item bound
        pure (first :: rest)) hrest.map hfollow
      have hstart := hlead.bind (f := fun done => if done then pure [] else do
        let first ← item
        let rest ← itemsWithin atEnd item bound
        pure (first :: rest)) (.ite_neg Bool.false_ne_true hall) (by
          intro u hu
          rw [htokens] at hu
          exact hu)
      rw [leadTokens, List.flatMap_cons, List.append_assoc, List.append_assoc]
      exact hstart

/-- Every item of a repetition takes at least one token, so the number of tokens bounds the
    items. -/
theorem length_le_leadTokens (hr : Repeats atEnd lead last tokensOf mid next items) :
    items.length ≤ (leadTokens lead tokensOf items).length := by
  induction items with
  | nil => exact Nat.zero_le _
  | cons a rest ih =>
      obtain ⟨t, others, htokens, -⟩ := hr.starts a (List.mem_cons_self ..)
      have hrest := ih hr.tail
      rw [leadTokens, List.flatMap_cons, htokens]
      simp only [List.length_cons, List.length_append]
      rw [leadTokens] at hrest
      omega

/-- Items are read one after the other until the end. -/
theorem reads_itemsUntil (hr : Repeats atEnd lead last tokensOf mid next items)
    (hi : ∀ a ∈ items, Reads item (tokensOf a) a mid) :
    Reads (itemsUntil atEnd item) (leadTokens lead tokensOf items ++ last) items next := by
  intro front lexeme behind t hfront ht hnext
  have hlength : front.length = (leadTokens lead tokensOf items ++ last).length := by
    simpa using congrArg List.length hfront
  have hitems := length_le_leadTokens hr
  have hbound : items.length < (front ++ lexeme :: behind).length + 1 := by
    simp only [List.length_append, List.length_cons] at hlength ⊢
    omega
  exact reads_itemsWithin hr hi hbound front lexeme behind t hfront ht hnext

end

/-! ## Sequences -/

/-- A sequence of tokens has a first one, and this one has a property. -/
def Starts (tokens : List Token) (property : Token → Prop) : Prop :=
  ∃ t others, tokens = t :: others ∧ property t

theorem Starts.mono {tokens : List Token} {first second : Token → Prop} (h : Starts tokens first)
    (hp : ∀ t, first t → second t) : Starts tokens second := by
  obtain ⟨t, others, htokens, ht⟩ := h
  exact ⟨t, others, htokens, hp t ht⟩

/-- What tokens start with does not depend on what is behind them. -/
theorem Starts.append {first second : List Token} {property : Token → Prop}
    (h : Starts first property) : Starts (first ++ second) property := by
  obtain ⟨t, others, rfl, ht⟩ := h
  exact ⟨t, others ++ second, rfl, ht⟩

/-- What opens tokens that are not empty is their first. -/
theorem Starts.opens {tokens : List Token} {property next : Token → Prop} {t : Token}
    (h : Starts tokens property) (ht : Opens tokens next t) : property t := by
  obtain ⟨u, others, rfl, hu⟩ := h
  rw [show t = u from ht]
  exact hu

section

variable {item : Parser α} {items : List α} {tokensOf : α → List Token} {mid : Token → Prop}
  {opening closing : Punctuator}

/-- What has to hold of items that stand one after the other up to a punctuator. -/
structure InRow (item : Parser α) (tokensOf : α → List Token) (mid : Token → Prop)
    (closing : Punctuator) (items : List α) : Prop where
  reads : ∀ a ∈ items, Reads item (tokensOf a) a mid
  starts : ∀ a ∈ items, Starts (tokensOf a) fun t => t ≠ .punctuator closing ∧ mid t
  closes : mid (.punctuator closing)

/-- Items without the first are in a row as well. -/
theorem InRow.tail {a : α} {rest : List α} (h : InRow item tokensOf mid closing (a :: rest)) :
    InRow item tokensOf mid closing rest :=
  ⟨fun b hb => h.reads b (List.mem_cons_of_mem _ hb),
    fun b hb => h.starts b (List.mem_cons_of_mem _ hb), h.closes⟩

/-- Items in a row are a repetition up to the closing punctuator. -/
theorem InRow.repeats (h : InRow item tokensOf mid closing items) :
    Repeats (skip closing) [] [.punctuator closing] tokensOf mid Anything items where
  stops := reads_skip closing
  starts := by
    intro a ha
    obtain ⟨t, others, htokens, ht, -⟩ := h.starts a ha
    exact ⟨t, others, htokens, (reads_skip_false closing).mono fun u hu => hu ▸ ht⟩
  follow := by
    intro t ht
    rw [show t = .punctuator closing from ht]
    exact h.closes
  between := by
    intro a ha t ht
    exact ((h.starts a ha).opens ht).2

theorem leadTokens_nil (tokensOf : α → List Token) (items : List α) :
    leadTokens [] tokensOf items = (items.map tokensOf).flatten :=
  List.flatMap_def

/-- Items in a row are read up to the closing punctuator. -/
theorem InRow.reads_itemsUntil (h : InRow item tokensOf mid closing items) :
    Reads (itemsUntil (skip closing) item)
      ((items.map tokensOf).flatten ++ [.punctuator closing]) items Anything := by
  rw [← leadTokens_nil]
  exact Parser.reads_itemsUntil h.repeats h.reads

/-- What may follow an item is what opens the items behind it. -/
theorem InRow.opens_rest {a : α} {rest : List α}
    (h : InRow item tokensOf mid closing (a :: rest)) {t : Token}
    (ht : Opens ((rest.map tokensOf).flatten ++ [.punctuator closing]) Anything t) : mid t := by
  cases rest with
  | nil =>
      rw [show t = .punctuator closing from ht]
      exact h.closes
  | cons b others =>
      have hb := h.starts b (List.mem_cons_of_mem _ (List.mem_cons_self ..))
      rw [List.map_cons, List.flatten_cons, List.append_assoc] at ht
      exact (hb.append.opens ht).2

/-- Items in a row, of which there is one at least, are read up to the closing punctuator. -/
theorem InRow.reads_someUntil (h : InRow item tokensOf mid closing items) (hne : items ≠ []) :
    Reads (someUntil (skip closing) item)
      ((items.map tokensOf).flatten ++ [.punctuator closing]) items Anything := by
  obtain ⟨a, rest, rfl⟩ := List.exists_cons_of_ne_nil hne
  have hrest := h.tail.reads_itemsUntil
  have hall := (h.reads a (List.mem_cons_self ..)).bind (f := fun first => do
    let rest ← itemsUntil (skip closing) item
    pure (first :: rest)) hrest.map fun t ht => h.opens_rest ht
  rw [List.map_cons, List.flatten_cons, List.append_assoc]
  exact hall

/-- Items in a row are read between punctuators. -/
theorem InRow.reads_between (h : InRow item tokensOf mid closing items) (opening : Punctuator) :
    Reads (between opening item closing)
      (.punctuator opening :: (items.map tokensOf).flatten ++ [.punctuator closing]) items
      Anything :=
  (reads_expect opening).bind h.reads_itemsUntil fun _ _ => trivial

theorem InRow.reads_someBetween (h : InRow item tokensOf mid closing items) (hne : items ≠ [])
    (opening : Punctuator) :
    Reads (someBetween opening item closing)
      (encloseTokens opening closing (items.map tokensOf)) items Anything := by
  rw [encloseTokens, if_neg (by simpa using hne)]
  exact (reads_expect opening).bind (h.reads_someUntil hne) fun _ _ => trivial

/-- Items in a row are read between punctuators that are missing if there are none. -/
theorem InRow.reads_optionalBetween (h : InRow item tokensOf mid closing items)
    (opening : Punctuator) :
    Reads (optionalBetween opening item closing)
      (encloseTokens opening closing (items.map tokensOf)) items
      (fun t => items = [] → t ≠ .punctuator opening) := by
  by_cases hne : items = []
  · rw [hne]
    exact (reads_skip_false opening).bind (.ite_neg Bool.false_ne_true (.pure [] _))
      fun t ht => ht rfl
  · rw [encloseTokens, if_neg (by simpa using hne)]
    exact (reads_skip opening).bind (.ite_pos rfl (h.reads_someUntil hne).relax)
      fun _ _ => trivial

end

/-! ## Marked and separated items -/

/-- Whether a mark does not come next; one that does is passed over. -/
def noMark (mark : Punctuator) : Parser Bool := do
  pure (!(← skip mark))

section

variable {item : Parser α} {items : List α} {tokensOf : α → List Token} {mid : Token → Prop}
  {mark : Punctuator}

/-- Items with a mark in front of each. -/
theorem reads_marked (hi : ∀ a ∈ items, Reads item (tokensOf a) a mid)
    (hs : ∀ a ∈ items, tokensOf a ≠ []) (hm : mid (.punctuator mark)) :
    Reads (itemsUntil (noMark mark) item)
      (items.flatMap fun a => .punctuator mark :: tokensOf a) items
      (fun t => t ≠ .punctuator mark ∧ mid t) := by
  have hr : Repeats (noMark mark) [.punctuator mark] [] tokensOf mid
      (fun t => t ≠ .punctuator mark ∧ mid t) items := by
    refine ⟨?_, ?_, fun t ht => ht.2, ?_⟩
    · exact (reads_skip_false mark).map.mono fun t ht => ht.1
    · intro a ha
      obtain ⟨t, others, htokens⟩ := List.exists_cons_of_ne_nil (hs a ha)
      exact ⟨t, others, htokens, (reads_skip mark).map.mono fun _ _ => trivial⟩
    · intro a ha t ht
      rw [show t = .punctuator mark from ht]
      exact hm
  have hall := reads_itemsUntil hr hi
  rwa [List.append_nil] at hall

/-- Separated parts are the first one and each other one with a separator before it. -/
theorem intercalate_singleton_cons (separator : Token) (first : List Token)
    (rest : List (List Token)) :
    [separator].intercalate (first :: rest)
      = first ++ rest.flatMap fun part => separator :: part := by
  induction rest generalizing first with
  | nil => simp
  | cons next others ih =>
      rw [List.intercalate_cons_cons, ih, List.flatMap_cons, List.append_assoc]
      rfl

/-- Items with a separator between neighbours. -/
theorem reads_separated (mark : Punctuator) (hne : items ≠ []) (hi : ∀ a ∈ items, Reads item (tokensOf a) a mid)
    (hs : ∀ a ∈ items, Starts (tokensOf a) fun t => t ≠ .punctuator mark)
    (hm : mid (.punctuator mark)) :
    Reads (separated mark item) (separateTokens (.punctuator mark) (items.map tokensOf)) items
      (fun t => t ≠ .punctuator mark ∧ mid t) := by
  obtain ⟨a, rest, rfl⟩ := List.exists_cons_of_ne_nil hne
  have hnil : ∀ b ∈ rest, tokensOf b ≠ [] := by
    intro b hb
    obtain ⟨t, others, htokens, -⟩ := hs b (List.mem_cons_of_mem _ hb)
    rw [htokens]
    exact List.cons_ne_nil _ _
  have hrest := reads_marked (fun b hb => hi b (List.mem_cons_of_mem _ hb)) hnil hm
  -- behind the first item stands a separator, or what follows all of them
  have hopens : ∀ t, Opens (rest.flatMap fun b => .punctuator mark :: tokensOf b)
      (fun t => t ≠ .punctuator mark ∧ mid t) t → mid t := by
    cases rest with
    | nil => exact fun t ht => ht.2
    | cons b others =>
        intro t ht
        rw [show t = .punctuator mark from ht]
        exact hm
  have hfirst := (hi a (List.mem_cons_self ..)).bind (f := fun first => do
    let rest ← itemsUntil (do pure (!(← skip mark))) item
    pure (first :: rest)) hrest.map hopens
  have hall := (reads_skip_false mark).bind (f := fun _ => do
    let first ← item
    let rest ← itemsUntil (do pure (!(← skip mark))) item
    pure (first :: rest)) hfirst fun t ht =>
      (hs a (List.mem_cons_self ..)).append.opens ht
  rw [separateTokens, List.map_cons, intercalate_singleton_cons, List.flatMap_map]
  exact hall

end

/-- Names with a separator between neighbours. -/
theorem reads_separatedNames (mark : Punctuator) {names : List Text} (hne : names ≠ []) :
    Reads (separated mark name)
      (separateTokens (.punctuator mark) (names.map fun name => [.name name])) names
      (fun t => t ≠ .punctuator mark) :=
  (reads_separated mark hne (fun name _ => reads_name name)
    (fun _ _ => ⟨_, _, rfl, fun h => by cases h⟩) trivial).mono fun _ ht => ⟨ht, trivial⟩

end SchemaStitch.Parser

import SchemaStitch.Proofs.Quotation
import SchemaStitch.Proofs.Word

/-! # Reading tokens where they were written

    A token has written forms (`Token.Written`): names and numbers as they are, strings
    with their escapes, block strings framed and shifted.  The lexer reads just the token
    back from them (`Token.Written.readToken`).

    What is read from any text is legal: names are names, numbers are numerals, and the
    text of a block string is flush (`isLegal_of_mem_lexemes`).

    A text spells tokens (`Spells`) if it consists of their written forms, with ignored
    characters and comments between them and boundaries where they are needed.  Scanning
    a text that spells tokens yields these tokens (`scan_append`), and indenting the text
    does not change what it spells (`Spells.indent`). -/

namespace SchemaStitch

open Lexer

/-! ## Written forms -/

theorem IsBounded.shift {text : Text} (h : IsBounded text) (width : Nat) :
    IsBounded (Text.shift width text) := by
  match text, h with
  | [], h => exact h
  | c :: cs, h =>
      by_cases hc : c = '\n'
      · rw [hc, Text.shift_newline]
        exact isBounded_cons.mpr rfl
      · rw [Text.shift_cons hc]
        exact isBounded_cons.mpr (isBounded_cons.mp h)

/-- The ways to write a token. -/
inductive Token.Written : Token → Text → Prop
  | punctuator (p : Punctuator) : Written (.punctuator p) p.text
  | name {value : Text} (h : isName value = true) : Written (.name value) value
  | int {digits : Text} (h : IsNumeral digits) (hd : numberToken digits = .int digits) :
      Written (.int digits) digits
  | float {digits : Text} (h : IsNumeral digits) (hd : numberToken digits = .float digits) :
      Written (.float digits) digits
  | string (value : Text) : Written (.string value) (printString value)
  | blockString {value : Text} (h : BlockString.IsValue value) (width : Nat) :
      Written (.blockString value) ('"' :: '"' :: '"' ::
        (Text.shift width (BlockString.escape (BlockString.framed value)) ++ ['"', '"', '"']))

/-- Punctuators end by themselves; other tokens need something that ends them. -/
def Token.endsItself : Token → Bool
  | .punctuator _ => true
  | _ => false

theorem punctuator_of_digit {c : Char} (h : isDigit c = true) : Punctuator.ofChar? c = none := by
  rw [Punctuator.ofChar?.eq_def]
  split <;> first | rfl | exact absurd h (by decide)

/-- A punctuator starts no name. -/
theorem punctuator_of_nameStart {c : Char} (h : isNameStart c = true) :
    Punctuator.ofChar? c = none := by
  rw [Punctuator.ofChar?.eq_def]
  split <;> first | rfl | exact absurd h (by decide)

/-- The digits stand before the letters. -/
theorem not_nameStart_of_digit {c : Char} (h : isDigit c = true) : isNameStart c = false := by
  have hdigit : 48 ≤ c.toNat ∧ c.toNat ≤ 57 := by
    simpa [isDigit, Char.le_def, UInt32.le_iff_toNat_le] using h
  rw [Bool.eq_false_iff]
  intro hname
  simp only [isNameStart, Bool.or_eq_true, Bool.and_eq_true, decide_eq_true_eq, Char.le_def,
    UInt32.le_iff_toNat_le] at hname
  rcases hname with (hsmall | hcapital) | rfl
  · have hle : 97 ≤ c.toNat := hsmall.1
    omega
  · have hle : 65 ≤ c.toNat := hcapital.1
    omega
  · exact absurd h (by decide)

/-- A number starts with a digit or a minus sign. -/
theorem head_of_isNumeral {digits : Text} (h : IsNumeral digits) :
    ∃ c cs, digits = c :: cs ∧ (isDigit c = true ∨ c = '-') := by
  obtain ⟨sign, integer, fraction, exponent, rfl, hsign, hinteger, -, -⟩ := parts_of_isNumeral h
  obtain ⟨c, cs, heq, hc⟩ := head_integer hinteger (fraction ++ exponent)
  rw [List.append_assoc, List.append_assoc, heq]
  rcases hsign with rfl | rfl
  · exact ⟨c, cs, rfl, .inl hc⟩
  · exact ⟨'-', c :: cs, rfl, .inr rfl⟩

/-- Reading at a character that opens neither dots nor a string. -/
theorem readToken_cons {c : Char} {text : Text} (hdot : c ≠ '.') (hquote : c ≠ '"') :
    readToken (c :: text) = match Punctuator.ofChar? c with
      | some p => .ok (.punctuator p, 1)
      | none =>
          if isNameStart c then
            let name := (c :: text).takeWhile isNameContinue
            .ok (.name name, name.length)
          else if isDigit c || c = '-' then (number (c :: text)).later 0 numberToken
          else if c = '\'' then .error (.singleQuote, 0)
          else .error (.unexpectedCharacter c, 0) := by
  rw [readToken.eq_def]
  split
  · next h => cases h
  · next h => exact absurd (List.cons.inj h).1 hdot
  · next h => exact absurd (List.cons.inj h).1 hquote
  · next h => exact absurd (List.cons.inj h).1 hquote
  · next h =>
      obtain ⟨rfl, rfl⟩ := List.cons.inj h
      rfl

/-- A numeral is read back before a boundary. -/
theorem readToken_number {digits rest : Text} (h : IsNumeral digits) (hr : IsBounded rest) :
    readToken (digits ++ rest) = .ok (numberToken digits, digits.length) := by
  have hread := number_append h hr
  obtain ⟨c, cs, rfl, hc⟩ := head_of_isNumeral h
  -- a number starts with a digit or a minus sign, and no other token does
  have hpunctuator : Punctuator.ofChar? c = none := by
    rcases hc with hc | rfl
    · exact punctuator_of_digit hc
    · rfl
  have hname : isNameStart c = false := by
    rcases hc with hc | rfl
    · exact not_nameStart_of_digit hc
    · rfl
  have hnumber : (isDigit c || c = '-') = true := by simpa using hc
  have hdot : c ≠ '.' := by
    rintro rfl
    rcases hc with hc | hc
    · exact absurd hc (by decide)
    · exact absurd hc (by decide)
  have hquote : c ≠ '"' := by
    rintro rfl
    rcases hc with hc | hc
    · exact absurd hc (by decide)
    · exact absurd hc (by decide)
  rw [List.cons_append] at hread ⊢
  rw [readToken_cons hdot hquote, hpunctuator]
  simp only [hname, hnumber, hread, Bool.false_eq_true, if_false, if_true, Reading.later,
    Nat.zero_add]

/-- A name is read back before a boundary. -/
theorem readToken_name {name rest : Text} (h : isName name = true) (hr : IsBounded rest) :
    readToken (name ++ rest) = .ok (.name name, name.length) := by
  have htake := takeWhile_name h hr
  obtain ⟨c, cs, rfl, hc, -⟩ := exists_cons_of_isName h
  have hdot : c ≠ '.' := by rintro rfl; exact absurd hc (by decide)
  have hquote : c ≠ '"' := by rintro rfl; exact absurd hc (by decide)
  rw [List.cons_append] at htake ⊢
  rw [readToken_cons hdot hquote, punctuator_of_nameStart hc]
  simp only [hc, if_true, htake]

/-- A punctuator is read back before anything. -/
theorem readToken_punctuator (p : Punctuator) (rest : Text) :
    readToken (p.text ++ rest) = .ok (.punctuator p, p.text.length) := by
  cases p <;> rfl

/-- A printed string is read back with its value. -/
theorem readToken_string (value : Text) {rest : Text} (hr : IsBounded rest) :
    readToken (printString value ++ rest) = .ok (.string value, (printString value).length) := by
  have hread := stringBody_append value rest
  have htext : printString value ++ rest
      = '"' :: (value.flatMap escapeCharacter ++ '"' :: rest) := by
    simp [printString]
  -- no block string opens here: neither an escape nor what stands behind starts with a quote
  have hlong : ∀ text, value.flatMap escapeCharacter ++ '"' :: rest ≠ '"' :: '"' :: text := by
    intro text heq
    cases value with
    | nil =>
        cases rest with
        | nil => simp at heq
        | cons c cs =>
            simp only [List.flatMap_nil, List.nil_append, List.cons.injEq, true_and] at heq
            exact absurd heq.1 (isBoundary_iff.mp (isBounded_cons.mp hr)).2.2
    | cons c cs =>
        rw [List.flatMap_cons, List.append_assoc] at heq
        rcases escapeSequence_escapeCharacter c with ⟨hc, hq, -, -⟩ | ⟨escaped, hc, -⟩
        · rw [hc] at heq
          exact hq (List.cons.inj heq).1
        · rw [hc] at heq
          exact absurd (List.cons.inj heq).1 (by decide)
  rw [htext, readToken.eq_4 _ hlong, hread]
  simp [Reading.later, printString, Nat.add_comm]

/-- A printed block string is read back with its value, however far it is indented. -/
theorem readToken_blockString {value : Text} (h : BlockString.IsValue value) (width : Nat)
    (rest : Text) :
    readToken ('"' :: '"' :: '"' ::
        (Text.shift width (BlockString.escape (BlockString.framed value)) ++ ['"', '"', '"']) ++ rest)
      = .ok (.blockString value,
          (Text.shift width (BlockString.escape (BlockString.framed value))).length + 6) := by
  have hread := blockBody_append (BlockString.isClosable_shift_framed h width) rest
  rw [BlockString.escape_shift] at hread
  simp only [List.cons_append, List.append_assoc, List.nil_append]
  rw [readToken, hread]
  simp only [Reading.later, BlockString.valueOf_shift_framed h]
  congr 2
  omega

/-- A token is read back from the way it was written. -/
theorem Token.Written.readToken {token : Token} {text rest : Text} (h : token.Written text)
    (hr : token.endsItself = false → IsBounded rest) :
    readToken (text ++ rest) = .ok (token, text.length) := by
  cases h with
  | punctuator p => exact readToken_punctuator p rest
  | name h => exact readToken_name h (hr rfl)
  | int h hd => rw [readToken_number h (hr rfl), hd]
  | float h hd => rw [readToken_number h (hr rfl), hd]
  | string value => exact readToken_string value (hr rfl)
  | blockString h width =>
      rw [readToken_blockString h width rest]
      simp

/-! ## Scanning -/

namespace Lexer

/-- The tokens of a text and what ends them, without their places. -/
def scan (text : Text) : List (Except LexicalFault Token) :=
  (lexemes text).map Lexeme.token

/-- Where a text starts matters to no token. -/
theorem map_token_lexemesFrom (text : Text) : ∀ skip p q,
    (lexemesFrom skip p text).map Lexeme.token = (lexemesFrom skip q text).map Lexeme.token := by
  induction text with
  | nil => intro skip p q; cases skip <;> rfl
  | cons c rest ih =>
      intro skip p q
      cases skip with
      | succ skip => exact ih skip (p + 1) (q + 1)
      | zero =>
          rw [lexemesFrom, lexemesFrom]
          split
          · exact ih 0 (p + 1) (q + 1)
          · split
            · exact ih _ (p + 1) (q + 1)
            · cases readToken (c :: rest) with
              | error fault => rfl
              | ok read =>
                  simp only [List.map_cons]
                  rw [ih _ (p + 1) (q + 1)]

/-- The tokens of a text do not depend on the position it is said to start at. -/
theorem map_token_lexemesFrom_eq_scan (position : Nat) (text : Text) :
    (lexemesFrom 0 position text).map Lexeme.token = scan text :=
  map_token_lexemesFrom text 0 position 0

/-- What a token took is passed over. -/
theorem lexemesFrom_append (passed rest : Text) (position : Nat) :
    lexemesFrom passed.length position (passed ++ rest)
      = lexemesFrom 0 (position + passed.length) rest := by
  induction passed generalizing position with
  | nil => rfl
  | cons c cs ih =>
      rw [List.length_cons, List.cons_append, lexemesFrom, ih]
      congr 1
      omega

/-- An ignored character in front adds no token. -/
theorem scan_ignored {c : Char} (hc : isIgnored c = true) (text : Text) :
    scan (c :: text) = scan text := by
  rw [scan, lexemes, lexemesFrom, if_pos hc, map_token_lexemesFrom_eq_scan]

/-- A comment is passed over up to its line end. -/
theorem scan_comment {body : Text} (hb : ∀ c ∈ body, Text.isNewline c = false) (text : Text) :
    scan ('#' :: (body ++ '\n' :: text)) = scan text := by
  have hbody : commentBody (body ++ '\n' :: text) = body := by
    rw [commentBody, List.takeWhile_append_of_pos (by simpa using hb), List.takeWhile_cons_of_neg]
    · exact List.append_nil body
    · decide
  rw [scan, lexemes, lexemesFrom, if_neg (by decide), if_pos rfl, hbody, lexemesFrom_append,
    map_token_lexemesFrom_eq_scan, scan_ignored rfl]

/-- A token that is read goes before what is scanned behind it. -/
theorem scan_token {token : Token} {text rest : Text} {c : Char} (hhead : text.head? = some c)
    (hi : isIgnored c = false) (hc : c ≠ '#')
    (h : readToken (text ++ rest) = .ok (token, text.length)) :
    scan (text ++ rest) = .ok token :: scan rest := by
  match text, hhead with
  | _ :: cs, rfl =>
      rw [List.cons_append] at h ⊢
      rw [scan, lexemes, lexemesFrom, if_neg (by simp [hi]), if_neg hc, h]
      simp only [List.length_cons, Nat.add_sub_cancel, List.map_cons]
      rw [lexemesFrom_append, map_token_lexemesFrom_eq_scan]

end Lexer

/-- Neither an ignored character nor a comment opens a written token. -/
theorem Token.Written.head {token : Token} {text : Text} (h : token.Written text) :
    ∃ c, text.head? = some c ∧ isIgnored c = false ∧ c ≠ '#' := by
  have hname : ∀ {c : Char}, isNameContinue c = true ∨ c = '-' →
      isIgnored c = false ∧ c ≠ '#' := by
    intro c hc
    constructor
    · rw [Bool.eq_false_iff]
      intro hi
      simp only [isIgnored, Bool.or_eq_true, decide_eq_true_eq] at hi
      rcases hi with ((((rfl | rfl) | rfl) | rfl) | rfl) | rfl <;> exact absurd hc (by decide)
    · rintro rfl
      exact absurd hc (by decide)
  have hnumeral : ∀ {digits : Text}, IsNumeral digits →
      ∃ c, digits.head? = some c ∧ isIgnored c = false ∧ c ≠ '#' := by
    intro digits hd
    obtain ⟨c, cs, rfl, hc⟩ := head_of_isNumeral hd
    exact ⟨c, rfl, hname (hc.imp_left fun hc => by simp [isNameContinue, hc])⟩
  -- names and numbers open with a character that goes on a name or with a minus; all else is
  -- a fixed mark
  cases h with
  | punctuator p => cases p <;> exact ⟨_, rfl, by decide, by decide⟩
  | name h =>
      obtain ⟨c, cs, rfl, hc, -⟩ := exists_cons_of_isName h
      exact ⟨c, rfl, hname (.inl (by simp [isNameContinue, hc]))⟩
  | int h _ => exact hnumeral h
  | float h _ => exact hnumeral h
  | string value => exact ⟨'"', rfl, by decide, by decide⟩
  | blockString h width => exact ⟨'"', rfl, by decide, by decide⟩

/-- A token can be written with its lines shifted. -/
theorem Token.Written.shift {token : Token} {text : Text} (h : token.Written text)
    (width : Nat) : token.Written (Text.shift width text) := by
  cases h with
  | punctuator p =>
      rw [Text.shift_eq_self width (by cases p <;> decide)]
      exact .punctuator p
  | name h =>
      rw [Text.shift_eq_self width (newline_notMem_of_isName h)]
      exact .name h
  | int h hd =>
      rw [Text.shift_eq_self width (newline_notMem_of_isNumeral h)]
      exact .int h hd
  | float h hd =>
      rw [Text.shift_eq_self width (newline_notMem_of_isNumeral h)]
      exact .float h hd
  | string value =>
      rw [Text.shift_eq_self width (newline_notMem_printString value)]
      exact .string value
  | blockString h w =>
      have hquotes : Text.shift width ['"', '"', '"'] = ['"', '"', '"'] := rfl
      rw [Text.shift_cons (by decide), Text.shift_cons (by decide), Text.shift_cons (by decide),
        Text.shift_append, Text.shift_shift, hquotes]
      exact .blockString h (width + w)

/-! ## Texts that spell tokens -/

/-- A text consists of written tokens with ignored characters and comments between
    them. -/
inductive Spells : Text → List Token → Prop
  | nil : Spells [] []
  | ignored {c : Char} {text : Text} {tokens : List Token} (hc : isIgnored c = true)
      (h : Spells text tokens) : Spells (c :: text) tokens
  | comment {body text : Text} {tokens : List Token}
      (hb : ∀ c ∈ body, Text.isNewline c = false) (h : Spells text tokens) :
      Spells ('#' :: (body ++ '\n' :: text)) tokens
  | token {token : Token} {written text : Text} {tokens : List Token}
      (hw : token.Written written) (hb : token.endsItself = false → IsBounded text)
      (h : Spells text tokens) : Spells (written ++ text) (token :: tokens)

namespace Spells

variable {first second text : Text} {tokens more : List Token}

/-- Scanning yields what a text spells. -/
theorem scan_append (h : Spells text tokens) {rest : Text} (hr : IsBounded rest) :
    scan (text ++ rest) = tokens.map .ok ++ scan rest := by
  induction h with
  | nil => rfl
  | ignored hc _ ih => rw [List.cons_append, scan_ignored hc, ih]
  | comment hb _ ih =>
      rw [List.cons_append, List.append_assoc, List.cons_append, scan_comment hb, ih]
  | token hw hb _ ih =>
      obtain ⟨c, hhead, hi, hc⟩ := hw.head
      rw [List.append_assoc, scan_token hhead hi hc (hw.readToken fun he => (hb he).append hr), ih]
      rfl

/-- Two texts spell what they spell one after the other, if nothing in the second goes on
    with the first. -/
theorem append (h1 : Spells first tokens) (h2 : Spells second more) (hb : IsBounded second) :
    Spells (first ++ second) (tokens ++ more) := by
  induction h1 with
  | nil => exact h2
  | ignored hc _ ih => exact .ignored hc ih
  | comment hbody _ ih =>
      rw [List.cons_append, List.append_assoc, List.cons_append]
      exact .comment hbody ih
  | token hw hbound _ ih =>
      rw [List.append_assoc]
      exact .token hw (fun he => (hbound he).append hb) ih

/-- Blanks spell nothing. -/
theorem blanks (width : Nat) (h : Spells text tokens) :
    Spells (List.replicate width ' ' ++ text) tokens := by
  induction width with
  | zero => exact h
  | succ width ih => exact .ignored rfl ih

/-- Shifted lines spell the same. -/
theorem shift (h : Spells text tokens) (width : Nat) : Spells (Text.shift width text) tokens := by
  induction h with
  | nil => exact .nil
  | @ignored c text tokens hc _ ih =>
      by_cases hn : c = '\n'
      · rw [hn, Text.shift_newline]
        exact .ignored rfl (ih.blanks width)
      · rw [Text.shift_cons hn]
        exact .ignored hc ih
  | @comment body text tokens hb _ ih =>
      have hline : '\n' ∉ body := fun hm => Bool.noConfusion (hb _ hm)
      rw [Text.shift_cons (by decide), Text.shift_append, Text.shift_eq_self width hline,
        Text.shift_newline]
      exact .comment hb (ih.blanks width)
  | token hw hb _ ih =>
      rw [Text.shift_append]
      exact .token (hw.shift width) (fun he => (hb he).shift width) ih

/-- An indented text spells the same. -/
theorem indent (h : Spells text tokens) : Spells text.indent tokens := by
  rw [Text.indent, Text.indentTail_eq_shift]
  exact .ignored rfl (.ignored rfl (h.shift 2))

end Spells

/-! ## Legal tokens -/

/-- The values that tokens have when they come from a text. -/
def Token.IsLegal : Token → Prop
  | .name value => isName value = true
  | .int digits => IsNumeral digits ∧ numberToken digits = .int digits
  | .float digits => IsNumeral digits ∧ numberToken digits = .float digits
  | .blockString value => BlockString.IsValue value
  | _ => True

theorem isLegal_numberToken {digits : Text} (h : IsNumeral digits) :
    (numberToken digits).IsLegal := by
  by_cases hf : (digits.any fun c => c = '.' || c = 'e' || c = 'E') = true
  · have htoken : numberToken digits = .float digits := if_pos hf
    rw [htoken]
    exact ⟨h, htoken⟩
  · have htoken : numberToken digits = .int digits := if_neg hf
    rw [htoken]
    exact ⟨h, htoken⟩

/-- A reading whose value was changed, seen from a few characters before. -/
theorem ok_of_later {α β : Type} {count size : Nat} {f : α → β} {reading : Reading α} {value : β}
    (h : reading.later count f = .ok (value, size)) :
    ∃ v n, reading = .ok (v, n) ∧ value = f v := by
  match reading, h with
  | .ok (v, n), h => exact ⟨v, n, rfl, (Prod.mk.inj (Except.ok.inj h)).1.symm⟩

/-- What is read is legal. -/
theorem isLegal_of_readToken {text : Text} {token : Token} {size : Nat}
    (h : readToken text = .ok (token, size)) : token.IsLegal := by
  rw [readToken.eq_def] at h
  -- one case for each way to read a token; only names, numerals and block strings have
  -- something to show
  split at h
  · obtain ⟨rfl, -⟩ := Prod.mk.inj (Except.ok.inj h)
    trivial
  · obtain ⟨rfl, -⟩ := Prod.mk.inj (Except.ok.inj h)
    trivial
  · obtain ⟨content, n, -, rfl⟩ := ok_of_later h
    exact BlockString.isValue_valueOf content
  · obtain ⟨value, n, -, rfl⟩ := ok_of_later h
    trivial
  · next c rest _ _ _ =>
      split at h
      · obtain ⟨rfl, -⟩ := Prod.mk.inj (Except.ok.inj h)
        trivial
      · split at h
        · next hc =>
            obtain ⟨rfl, -⟩ := Prod.mk.inj (Except.ok.inj h)
            have hcontinue : isNameContinue c = true := by simp [isNameContinue, hc]
            show isName ((c :: rest).takeWhile isNameContinue) = true
            rw [List.takeWhile_cons_of_pos hcontinue, isName, hc, Bool.true_and, List.all_eq_true]
            exact fun d hd => List.mem_takeWhile_imp hd
        · split at h
          · obtain ⟨digits, n, hnumber, rfl⟩ := ok_of_later h
            exact isLegal_numberToken ⟨_, _, hnumber⟩
          · split at h <;> cases h

/-- Every token of a text is legal. -/
theorem isLegal_of_mem_lexemes {text : Text} {lexeme : Lexeme} {token : Token}
    (hl : lexeme ∈ lexemes text) (ht : lexeme.token = .ok token) : token.IsLegal := by
  -- the induction is over the text, for whatever position it is read from
  have hfrom : ∀ (text : Text) (skip position : Nat), lexeme ∈ lexemesFrom skip position text →
      token.IsLegal := by
    intro text
    induction text with
    | nil =>
        intro skip position hl
        have heq : lexeme = ⟨.ok .endOfText, position, position⟩ := by
          cases skip <;> simpa [lexemesFrom] using hl
        rw [heq] at ht
        rw [← Except.ok.inj ht]
        trivial
    | cons c rest ih =>
        intro skip position hl
        cases skip with
        | succ skip => exact ih skip (position + 1) hl
        | zero =>
            rw [lexemesFrom] at hl
            split at hl
            · exact ih 0 (position + 1) hl
            · split at hl
              · exact ih _ (position + 1) hl
              · split at hl
                · rw [List.mem_singleton.mp hl] at ht
                  cases ht
                · next hread =>
                    rcases List.mem_cons.mp hl with rfl | hl
                    · rw [← Except.ok.inj ht]
                      exact isLegal_of_readToken hread
                    · exact ih _ (position + 1) hl
  exact hfrom text 0 0 hl

end SchemaStitch

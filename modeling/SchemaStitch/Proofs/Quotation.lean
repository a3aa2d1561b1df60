import SchemaStitch.Document.Printer
import SchemaStitch.Proofs.BlockString
import SchemaStitch.Token.Lexer

/-! # What stands between quotes is read back

    An escape in a printed string stands for the character that it was made from
    (`escapeSequence_escapeCharacter`), so a printed string is read back
    (`stringBody_append`).  In a block string a backslash before three quotes is the only
    escape; a text that closing quotes can end is read back from its escaped form
    (`blockBody_append`). -/

namespace SchemaStitch.Lexer

/-! ## Strings -/

/-- Characters that an escape took are passed over. -/
theorem stringBody_skip (passed rest : Text) :
    stringBody passed.length (passed ++ rest) = (stringBody 0 rest).later passed.length id := by
  induction passed with
  | nil =>
      cases hr : stringBody 0 rest with
      | error fault => simp [hr, Reading.later]
      | ok read => simp [hr, Reading.later]
  | cons c cs ih =>
      rw [List.length_cons, List.cons_append, stringBody, ih]
      cases hr : stringBody 0 rest with
      | error fault => simp [Reading.later]; omega
      | ok read => simp [Reading.later]; omega

/-- An escape gives its character and goes on behind it. -/
theorem stringBody_escape {escaped rest : Text} {c : Char}
    (h : escapeSequence ('\\' :: (escaped ++ rest)) = .ok (c, escaped.length + 1)) :
    stringBody 0 ('\\' :: (escaped ++ rest))
      = (stringBody 0 rest).later (escaped.length + 1) (c :: ·) := by
  rw [stringBody, if_neg (by decide), if_pos rfl, h]
  simp only [Nat.add_sub_cancel]
  rw [stringBody_skip]
  cases hr : stringBody 0 rest with
  | error fault => simp [Reading.later]; omega
  | ok read => simp [Reading.later]; omega

/-- Four hexadecimal digits spell every control character, and no brace opens them. -/
theorem fourHexDigits_control : ∀ n : Fin 0xA0,
    (Text.hexadecimal 4 n).capitals.length = 4
      ∧ (Text.hexadecimal 4 n).capitals.head? ≠ some '{'
      ∧ fourHexDigits (Text.hexadecimal 4 n).capitals = some n.val := by
  decide +kernel

theorem fourHexDigits_append {digits : Text} (h : digits.length = 4) (rest : Text) :
    fourHexDigits (digits ++ rest) = fourHexDigits digits := by
  match digits, h with
  | [_, _, _, _], _ => rfl

/-- A control character is read back from its hexadecimal digits. -/
theorem escapeSequence_control {c : Char} (hc : c.toNat < 0xA0) (rest : Text) :
    escapeSequence ('\\' :: 'u' :: ((Text.hexadecimal 4 c.toNat).capitals ++ rest))
      = .ok (c, 6) := by
  obtain ⟨hlen, hbrace, hfour⟩ := fourHexDigits_control ⟨c.toNat, hc⟩
  have hread := fourHexDigits_append hlen rest
  rw [hfour] at hread
  have hscalar : isScalar c.toNat = true := by
    rw [isScalar, decide_eq_true (by omega), Bool.true_or]
  simp only [] at hlen hbrace hread
  generalize (Text.hexadecimal 4 c.toNat).capitals = digits at hlen hbrace hread ⊢
  match digits, hlen with
  | d :: ds, _ =>
      have hd : d ≠ '{' := by simpa using hbrace
      rw [List.cons_append] at hread ⊢
      rw [escapeSequence.eq_2 _ _ (by simpa using hd), fixedWidthEscape]
      simp only [List.drop_succ_cons, List.drop_zero, hread, hscalar, if_true, Char.ofNat_toNat]

/-- A character stands for itself, or its escape does. -/
theorem escapeSequence_escapeCharacter (c : Char) :
    escapeCharacter c = [c] ∧ c ≠ '"' ∧ c ≠ '\\' ∧ Text.isNewline c = false
      ∨ ∃ escaped, escapeCharacter c = '\\' :: escaped
        ∧ ∀ rest, escapeSequence ('\\' :: (escaped ++ rest)) = .ok (c, escaped.length + 1) := by
  by_cases h1 : c = '"'
  · subst h1; exact .inr ⟨['"'], rfl, fun _ => rfl⟩
  by_cases h2 : c = '\\'
  · subst h2; exact .inr ⟨['\\'], rfl, fun _ => rfl⟩
  by_cases h3 : c = '\x08'
  · subst h3; exact .inr ⟨['b'], rfl, fun _ => rfl⟩
  by_cases h4 : c = '\t'
  · subst h4; exact .inr ⟨['t'], rfl, fun _ => rfl⟩
  by_cases h5 : c = '\n'
  · subst h5; exact .inr ⟨['n'], rfl, fun _ => rfl⟩
  by_cases h6 : c = '\x0C'
  · subst h6; exact .inr ⟨['f'], rfl, fun _ => rfl⟩
  by_cases h7 : c = '\r'
  · subst h7; exact .inr ⟨['r'], rfl, fun _ => rfl⟩
  -- what has no short escape is a control character, written by its code, or stands for itself
  rw [escapeCharacter, if_neg h1, if_neg h2, if_neg h3, if_neg h4, if_neg h5, if_neg h6, if_neg h7]
  split
  · next hcontrol =>
      have hlt : c.toNat < 0xA0 := by
        simp only [Bool.or_eq_true, Bool.and_eq_true, decide_eq_true_eq] at hcontrol
        omega
      have hlen := (fourHexDigits_control ⟨c.toNat, hlt⟩).1
      refine .inr ⟨'u' :: (Text.hexadecimal 4 c.toNat).capitals, rfl, fun rest => ?_⟩
      rw [List.cons_append, escapeSequence_control hlt, List.length_cons, hlen]
  · exact .inl ⟨rfl, h1, h2, by simp [Text.isNewline, h5, h7]⟩

/-- The characters that escapes are written with. -/
def escapeLetters : Text :=
  "\\\"btnfru0123456789ABCDEF"

/-- An escape brings in no characters but its own. -/
theorem notMem_escapeCharacter {c d : Char} (hd : d ∉ escapeLetters) (hne : d ≠ c) :
    d ∉ escapeCharacter c := by
  have hdigits : ∀ n : Fin 0xA0,
      ("\\u" ++ (Text.hexadecimal 4 n).capitals).all escapeLetters.contains = true := by
    decide +kernel
  have hescape {written : Text} (h : written.all escapeLetters.contains = true) : d ∉ written :=
    fun hm => hd (List.contains_iff_mem.mp (List.all_eq_true.mp h d hm))
  rw [escapeCharacter]
  split; · exact hescape (by decide)
  split; · exact hescape (by decide)
  split; · exact hescape (by decide)
  split; · exact hescape (by decide)
  split; · exact hescape (by decide)
  split; · exact hescape (by decide)
  split; · exact hescape (by decide)
  split
  · next hcontrol =>
      have hlt : c.toNat < 0xA0 := by
        simp only [Bool.or_eq_true, Bool.and_eq_true, decide_eq_true_eq] at hcontrol
        omega
      exact hescape (hdigits ⟨c.toNat, hlt⟩)
  · rw [List.mem_singleton]
    exact hne

/-- A printed string stays on one line. -/
theorem newline_notMem_escapeCharacter (c : Char) : '\n' ∉ escapeCharacter c := by
  by_cases hc : c = '\n'
  · rw [hc]
    decide
  · exact notMem_escapeCharacter (by decide) (Ne.symm hc)

theorem newline_notMem_printString (value : Text) : '\n' ∉ printString value := by
  simp only [printString, List.mem_cons, List.mem_append, List.mem_flatMap, not_or]
  refine ⟨by decide, ?_, by decide, by simp⟩
  rintro ⟨c, -, hc⟩
  exact newline_notMem_escapeCharacter c hc

/-- A printed string is read back up to its closing quote. -/
theorem stringBody_append (value rest : Text) :
    stringBody 0 (value.flatMap escapeCharacter ++ '"' :: rest)
      = .ok (value, (value.flatMap escapeCharacter).length + 1) := by
  induction value with
  | nil => rfl
  | cons c cs ih =>
      rw [List.flatMap_cons, List.append_assoc]
      rcases escapeSequence_escapeCharacter c with ⟨hc, hq, hb, hn⟩ | ⟨escaped, hc, hread⟩
      · rw [hc, List.singleton_append, stringBody, if_neg hq, if_neg hb, hn]
        simp only [Bool.false_eq_true, if_false, ih, Reading.later, List.length_append,
          List.length_singleton]
        rw [Nat.add_assoc]
      · rw [hc, List.cons_append, stringBody_escape (hread _), ih]
        simp only [Reading.later, List.length_append, List.length_cons]
        congr 2

/-! ## Block strings -/

open BlockString

/-- What is no quote of three and no escape of them is read as it is. -/
theorem blockBody_cons {c : Char} {text : Text}
    (hquote : ∀ cs, c = '"' → text = '"' :: '"' :: cs → False)
    (hescape : ∀ cs, c = '\\' → text = '"' :: '"' :: '"' :: cs → False) :
    blockBody (c :: text) = (blockBody text).later 1 (c :: ·) := by
  rw [blockBody.eq_4 c text hquote hescape]

/-- A text that closing quotes can end is read back from its escaped form. -/
theorem blockBody_append {text : Text} (h : IsClosable text) (rest : Text) :
    blockBody (escape text ++ '"' :: '"' :: '"' :: rest)
      = .ok (text, (escape text).length + 3) := by
  -- by the cases of escaping: three quotes, one character, or the end
  induction text using escape.induct with
  | case1 cs ih =>
      rw [escape]
      simp only [List.cons_append]
      rw [blockBody, ih h.of_quotes]
      simp only [Reading.later, List.length_cons, List.cons_append, List.nil_append]
      congr 2
      omega
  | case2 c cs hc ih =>
      rw [escape_cons hc, List.cons_append, blockBody_cons ?_ ?_, ih (h.of_cons hc)]
      · simp only [Reading.later, List.length_cons]
        congr 2
        omega
      · -- three quotes in a row could only be a quote at the end and closing ones
        rintro ds rfl h1
        rcases quote_of_escape_append h1 with rfl | ⟨es, rfl, h2⟩
        · exact absurd (h.2 rfl) (by decide)
        rcases quote_of_escape_append h2 with rfl | ⟨fs, rfl, -⟩
        · exact absurd (h.2 rfl) (by decide)
        · exact hc fs rfl rfl
      · -- three quotes behind a backslash would be an escape of their own
        rintro ds rfl h1
        rcases quote_of_escape_append h1 with rfl | ⟨es, rfl, h2⟩
        · exact absurd h.1 (by decide)
        rcases quote_of_escape_append h2 with rfl | ⟨fs, rfl, h3⟩
        · exact absurd (h.2 rfl) (by decide)
        rcases quote_of_escape_append h3 with rfl | ⟨gs, rfl, -⟩
        · exact absurd (h.2 rfl) (by decide)
        · exact absurd (List.cons.inj h1).1 (by decide)
  | case3 => rfl

end SchemaStitch.Lexer

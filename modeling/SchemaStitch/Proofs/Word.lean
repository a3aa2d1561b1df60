import Mathlib.Data.List.TakeWhile
import SchemaStitch.Token.Lexer

/-! # Names and numbers end where nothing goes on with them

    A name or a number is read as far as its characters go.  Behind it stands a boundary
    (`IsBounded`): nothing, or a character that goes on with neither of them.  Up to a
    boundary a name is read as it is (`takeWhile_name`), and so is whatever was read as a
    number before (`number_append`). -/

namespace SchemaStitch

/-- A start of a name with characters of a name behind it. -/
def isName : Text → Bool
  | [] => false
  | c :: cs => isNameStart c && cs.all isNameContinue

/-- A number as the lexer reads it. -/
def IsNumeral (digits : Text) : Prop :=
  ∃ text size, Lexer.number text = .ok (digits, size)

/-! ## Boundaries -/

/-- A character that goes on with no token and opens no string. -/
def isBoundary (c : Char) : Bool :=
  !isNameContinue c && c ≠ '.' && c ≠ '"'

/-- Nothing goes on with the token before the text. -/
def IsBounded (text : Text) : Prop :=
  ∀ c ∈ text.head?, isBoundary c = true

theorem isBounded_nil : IsBounded [] := by
  intro c hc
  cases hc

theorem isBounded_cons {c : Char} {text : Text} : IsBounded (c :: text) ↔ isBoundary c = true := by
  simp [IsBounded]

theorem IsBounded.append {first second : Text} (h1 : IsBounded first) (h2 : IsBounded second) :
    IsBounded (first ++ second) := by
  cases first with
  | nil => exact h2
  | cons c cs => exact isBounded_cons.mpr (isBounded_cons.mp h1)

/-- A boundary is a character that goes on with no name or numeral, and that opens no string
    behind one. -/
theorem isBoundary_iff {c : Char} :
    isBoundary c = true ↔ isNameContinue c = false ∧ c ≠ '.' ∧ c ≠ '"' := by
  simp [isBoundary, and_assoc]

namespace Lexer

/-! ## Names -/

/-- A name is a first character and others that go on with it. -/
theorem exists_cons_of_isName {name : Text} (h : isName name = true) :
    ∃ c cs, name = c :: cs ∧ isNameStart c = true ∧ ∀ d ∈ cs, isNameContinue d = true := by
  match name, h with
  | c :: cs, h =>
      obtain ⟨hc, hcs⟩ := Bool.and_eq_true_iff.mp h
      exact ⟨c, cs, rfl, hc, List.all_eq_true.mp hcs⟩

/-- Every character of a name may go on with one. -/
theorem isNameContinue_of_isName {name : Text} (h : isName name = true) :
    ∀ c ∈ name, isNameContinue c = true := by
  obtain ⟨c, cs, rfl, hc, hcs⟩ := exists_cons_of_isName h
  intro d hd
  rcases List.mem_cons.mp hd with rfl | hd
  · simp [isNameContinue, hc]
  · exact hcs d hd

/-- A name is read up to what bounds it. -/
theorem takeWhile_name {name rest : Text} (h : isName name = true) (hr : IsBounded rest) :
    (name ++ rest).takeWhile isNameContinue = name := by
  rw [List.takeWhile_append_of_pos (isNameContinue_of_isName h)]
  match rest, hr with
  | [], _ => simp
  | c :: cs, hr =>
      have hc := (isBoundary_iff.mp (isBounded_cons.mp hr)).1
      rw [List.takeWhile_cons_of_neg (by simp [hc]), List.append_nil]

/-! ## Numbers -/

/-- One or more digits. -/
def IsDigits (digits : Text) : Prop :=
  digits ≠ [] ∧ ∀ c ∈ digits, isDigit c = true

/-- No digit comes first. -/
def NoDigit (text : Text) : Prop :=
  ∀ c ∈ text.head?, isDigit c = false

/-- Digits are read up to what is no digit. -/
theorem digitRun_append {digits rest : Text} (h : IsDigits digits) (hr : NoDigit rest) :
    digitRun (digits ++ rest) = .ok (digits, digits.length) := by
  have htake : (digits ++ rest).takeWhile isDigit = digits := by
    rw [List.takeWhile_append_of_pos h.2]
    match rest, hr with
    | [], _ => simp
    | c :: cs, hr =>
        rw [List.takeWhile_cons_of_neg (by simp [hr c rfl]), List.append_nil]
  rw [digitRun, htake]
  match digits, h with
  | c :: cs, _ => rfl
  | [], h => exact absurd rfl h.1

/-- What is read as a run of digits are digits. -/
theorem isDigits_of_digitRun {text digits : Text} {size : Nat}
    (h : digitRun text = .ok (digits, size)) : IsDigits digits := by
  rw [digitRun] at h
  split at h
  · cases h
  · next hne =>
      obtain ⟨rfl, -⟩ := Prod.mk.inj (Except.ok.inj h)
      exact ⟨hne, fun c hc => List.mem_takeWhile_imp hc⟩

/-- The optional minus sign of a number. -/
def IsSign (text : Text) : Prop :=
  text = [] ∨ text = ['-']

/-- The integer part of a number: only zero itself starts with a zero. -/
def IsInteger (text : Text) : Prop :=
  text = ['0'] ∨ IsDigits text ∧ text.head? ≠ some '0'

/-- The optional fractional part of a number. -/
def IsFraction (text : Text) : Prop :=
  text = [] ∨ ∃ digits, text = '.' :: digits ∧ IsDigits digits

/-- The optional exponent part of a number. -/
def IsExponent (text : Text) : Prop :=
  text = [] ∨ ∃ e sign digits, text = e :: (sign ++ digits) ∧ (e = 'e' ∨ e = 'E')
    ∧ (sign = [] ∨ sign = ['+'] ∨ sign = ['-']) ∧ IsDigits digits

/-- What two parts read together is what they read one after the other. -/
theorem ok_of_followedBy {text digits : Text} {size : Nat} {first : Reading Text}
    {second : Text → Reading Text}
    (h : first.followedBy text second = .ok (digits, size)) :
    ∃ d1 n1 d2 n2, first = .ok (d1, n1) ∧ second (text.drop n1) = .ok (d2, n2)
      ∧ digits = d1 ++ d2 := by
  match first, h with
  | .ok (d1, n1), h =>
      rw [Reading.followedBy] at h
      cases hs : second (text.drop n1) with
      | error fault => rw [hs] at h; cases h
      | ok read =>
          obtain ⟨d2, n2⟩ := read
          rw [hs] at h
          obtain ⟨rfl, -⟩ := Prod.mk.inj (Except.ok.inj h)
          exact ⟨d1, n1, d2, n2, rfl, hs, rfl⟩

/-- Reading one part and then another takes both. -/
theorem followedBy_append {first rest second : Text} {reader : Text → Reading Text}
    (h : reader rest = .ok (second, second.length)) :
    Reading.followedBy (first ++ rest) (.ok (first, first.length)) reader
      = .ok (first ++ second, (first ++ second).length) := by
  rw [Reading.followedBy, List.drop_left, h, Reading.later, List.length_append]

theorem isSign_of_minusSign {text sign : Text} {size : Nat}
    (h : minusSign text = .ok (sign, size)) : IsSign sign := by
  rw [minusSign.eq_def] at h
  split at h
  · exact .inr (Prod.mk.inj (Except.ok.inj h)).1.symm
  · exact .inl (Prod.mk.inj (Except.ok.inj h)).1.symm

/-- What is read as a whole part is one: no zero stands before other digits. -/
theorem isInteger_of_integerPart {text digits : Text} {size : Nat}
    (h : integerPart text = .ok (digits, size)) : IsInteger digits := by
  rw [integerPart.eq_def] at h
  split at h
  · split at h
    · cases h
    · exact .inl (Prod.mk.inj (Except.ok.inj h)).1.symm
  · next hzero =>
      have hdigits := isDigits_of_digitRun h
      match digits, hdigits, h with
      | [d], hdigits, h =>
          by_cases hd : d = '0'
          · exact .inl (by rw [hd])
          · exact .inr ⟨hdigits, by simpa using hd⟩
      | d :: e :: rest, hdigits, h =>
          refine .inr ⟨hdigits, fun hd => ?_⟩
          rw [digitRun] at h
          split at h
          · cases h
          · -- the text starts with its digits, and a zero has none behind it
            have htake := (Prod.mk.inj (Except.ok.inj h)).1
            have htext := List.takeWhile_append_dropWhile (p := isDigit) (l := text)
            rw [htake, Option.some.inj hd] at htext
            exact hzero e _ htext.symm
      | [], hdigits, _ => exact absurd rfl hdigits.1

/-- Digits read behind something fixed. -/
theorem ok_of_later_digitRun {text digits : Text} {size count : Nat} {f : Text → Text}
    (h : (digitRun text).later count f = .ok (digits, size)) :
    ∃ d, digits = f d ∧ IsDigits d := by
  cases hd : digitRun text with
  | error fault => rw [hd] at h; cases h
  | ok read =>
      obtain ⟨d, n⟩ := read
      rw [hd] at h
      exact ⟨d, (Prod.mk.inj (Except.ok.inj h)).1.symm, isDigits_of_digitRun hd⟩

/-- What is read as a fraction is one, or nothing. -/
theorem isFraction_of_fractionalPart {text digits : Text} {size : Nat}
    (h : fractionalPart text = .ok (digits, size)) : IsFraction digits := by
  rw [fractionalPart.eq_def] at h
  split at h
  · obtain ⟨d, rfl, hd⟩ := ok_of_later_digitRun h
    exact .inr ⟨d, rfl, hd⟩
  · exact .inl (Prod.mk.inj (Except.ok.inj h)).1.symm

/-- What is read as an exponent is one, or nothing. -/
theorem isExponent_of_exponentPart {text digits : Text} {size : Nat}
    (h : exponentPart text = .ok (digits, size)) : IsExponent digits := by
  rw [exponentPart.eq_def] at h
  split at h
  · next c rest =>
      split at h
      · next hc =>
          have he : c = 'e' ∨ c = 'E' := by simpa using hc
          split at h
          · next sign rest' =>
              split at h
              · next hs =>
                  have hsign : sign = '+' ∨ sign = '-' := by simpa using hs
                  obtain ⟨d, rfl, hd⟩ := ok_of_later_digitRun h
                  refine .inr ⟨c, [sign], d, rfl, he, .inr ?_, hd⟩
                  simpa using hsign
              · obtain ⟨d, rfl, hd⟩ := ok_of_later_digitRun h
                exact .inr ⟨c, [], d, rfl, he, .inl rfl, hd⟩
          · obtain ⟨d, rfl, hd⟩ := ok_of_later_digitRun h
            exact .inr ⟨c, [], d, rfl, he, .inl rfl, hd⟩
      · exact .inl (Prod.mk.inj (Except.ok.inj h)).1.symm
  · exact .inl (Prod.mk.inj (Except.ok.inj h)).1.symm

/-- A number consists of its four parts. -/
theorem parts_of_isNumeral {digits : Text} (h : IsNumeral digits) :
    ∃ sign integer fraction exponent, digits = sign ++ integer ++ fraction ++ exponent
      ∧ IsSign sign ∧ IsInteger integer ∧ IsFraction fraction ∧ IsExponent exponent := by
  obtain ⟨text, size, h⟩ := h
  obtain ⟨d1, n1, d2, n2, h1, h2, rfl⟩ := ok_of_followedBy h
  obtain ⟨e1, m1, exponent, m2, h3, hexponent, rfl⟩ := ok_of_followedBy h1
  obtain ⟨f1, k1, fraction, k2, h4, hfraction, rfl⟩ := ok_of_followedBy h3
  obtain ⟨sign, l1, integer, l2, hsign, hinteger, rfl⟩ := ok_of_followedBy h4
  have hend : d2 = [] := by
    rw [numberEnd.eq_def] at h2
    split at h2
    · split at h2
      · cases h2
      · exact (Prod.mk.inj (Except.ok.inj h2)).1.symm
    · exact (Prod.mk.inj (Except.ok.inj h2)).1.symm
  refine ⟨sign, integer, fraction, exponent, by rw [hend, List.append_nil], ?_⟩
  exact ⟨isSign_of_minusSign hsign, isInteger_of_integerPart hinteger,
    isFraction_of_fractionalPart hfraction, isExponent_of_exponentPart hexponent⟩

/-! ## Reading a number back -/

/-- A boundary is no digit. -/
theorem noDigit_of_isBounded {rest : Text} (h : IsBounded rest) : NoDigit rest := by
  intro c hc
  have hname := (isBoundary_iff.mp (h c hc)).1
  exact (Bool.or_eq_false_iff.mp hname).2

/-- What may follow the fraction: an exponent, or what bounds the number. -/
theorem head_exponent {exponent rest : Text} (h : IsExponent exponent) (hr : IsBounded rest) :
    NoDigit (exponent ++ rest) ∧ ∀ c ∈ (exponent ++ rest).head?, c ≠ '.' := by
  rcases h with rfl | ⟨e, sign, digits, rfl, he, -⟩
  · exact ⟨noDigit_of_isBounded hr, fun c hc => (isBoundary_iff.mp (hr c hc)).2.1⟩
  · constructor
    · rintro c ⟨⟩
      rcases he with rfl | rfl <;> rfl
    · rintro c ⟨⟩
      rcases he with rfl | rfl <;> decide

/-- A fraction is read back before a boundary. -/
theorem fractionalPart_append {fraction rest : Text} (h : IsFraction fraction)
    (hr : NoDigit rest) (hdot : ∀ c ∈ rest.head?, c ≠ '.') :
    fractionalPart (fraction ++ rest) = .ok (fraction, fraction.length) := by
  rcases h with rfl | ⟨digits, rfl, hd⟩
  · rw [List.nil_append, fractionalPart.eq_def]
    split
    · exact absurd rfl (hdot '.' rfl)
    · rfl
  · rw [List.cons_append, fractionalPart, digitRun_append hd hr, Reading.later, List.length_cons,
      Nat.add_comm]

/-- An exponent is read back before a boundary. -/
theorem exponentPart_append {exponent rest : Text} (h : IsExponent exponent)
    (hr : IsBounded rest) :
    exponentPart (exponent ++ rest) = .ok (exponent, exponent.length) := by
  rcases h with rfl | ⟨e, sign, digits, rfl, he, hs, hd⟩
  · match rest, hr with
    | [], _ => rfl
    | c :: cs, hr =>
        have hc := (isBoundary_iff.mp (isBounded_cons.mp hr)).1
        have hne : (c = 'e' || c = 'E') = false := by
          rw [Bool.or_eq_false_iff, decide_eq_false_iff_not, decide_eq_false_iff_not]
          constructor
          · rintro rfl; exact absurd hc (by decide)
          · rintro rfl; exact absurd hc (by decide)
        rw [List.nil_append, exponentPart.eq_def]
        simp only [hne, Bool.false_eq_true, if_false, List.length_nil]
  · have he' : (e = 'e' || e = 'E') = true := by simpa using he
    have hrun := digitRun_append hd (noDigit_of_isBounded hr)
    -- without a sign, the first digit must not be taken for one
    rcases hs with rfl | rfl | rfl
    · match digits, hd, hrun with
      | [], hd, _ => exact absurd rfl hd.1
      | d :: ds, hd, hrun =>
          have hdigit := hd.2 d (List.mem_cons_self ..)
          have hne : (d = '+' || d = '-') = false := by
            rw [Bool.or_eq_false_iff, decide_eq_false_iff_not, decide_eq_false_iff_not]
            constructor
            · rintro rfl; exact absurd hdigit (by decide)
            · rintro rfl; exact absurd hdigit (by decide)
          simp only [List.cons_append, List.nil_append] at hrun ⊢
          rw [exponentPart, he', if_pos rfl]
          simp only [hne, Bool.false_eq_true, if_false, hrun, Reading.later, List.length_cons]
          rw [Nat.add_comm]
    · simp only [List.cons_append, List.nil_append]
      rw [exponentPart, he', if_pos rfl]
      simp only [decide_true, Bool.true_or, if_true, hrun, Reading.later, List.length_cons]
      rw [Nat.add_comm]
    · simp only [List.cons_append, List.nil_append]
      rw [exponentPart, he', if_pos rfl]
      simp only [decide_true, Bool.or_true, if_true, hrun, Reading.later, List.length_cons]
      rw [Nat.add_comm]

/-- A whole part is read back before what is no digit. -/
theorem integerPart_append {integer rest : Text} (h : IsInteger integer) (hr : NoDigit rest) :
    integerPart (integer ++ rest) = .ok (integer, integer.length) := by
  rcases h with rfl | ⟨hd, hzero⟩
  · match rest, hr with
    | [], _ => rfl
    | c :: cs, hr =>
        rw [List.singleton_append, integerPart, if_neg (by simp [hr c rfl])]
        rfl
  · rw [integerPart.eq_def]
    split
    · next heq =>
        match integer, hd, hzero, heq with
        | [], hd, _, _ => exact absurd rfl hd.1
        | d :: ds, _, hzero, heq =>
            obtain ⟨rfl, -⟩ := List.cons.inj heq
            exact absurd rfl hzero
    · exact digitRun_append hd hr

theorem minusSign_append {sign rest : Text} (h : IsSign sign)
    (hr : ∀ c ∈ rest.head?, c ≠ '-') :
    minusSign (sign ++ rest) = .ok (sign, sign.length) := by
  rcases h with rfl | rfl
  · rw [List.nil_append, minusSign.eq_def]
    split
    · exact absurd rfl (hr '-' rfl)
    · rfl
  · rfl

/-- A number holds no line end. -/
theorem newline_notMem_of_isNumeral {digits : Text} (h : IsNumeral digits) : '\n' ∉ digits := by
  have hdigits : ∀ {digits : Text}, IsDigits digits → '\n' ∉ digits := by
    intro digits hd hm
    exact absurd (hd.2 _ hm) (by decide)
  obtain ⟨sign, integer, fraction, exponent, rfl, hs, hi, hf, he⟩ := parts_of_isNumeral h
  simp only [List.mem_append, not_or]
  refine ⟨⟨⟨?_, ?_⟩, ?_⟩, ?_⟩
  · rcases hs with rfl | rfl <;> decide
  · rcases hi with rfl | ⟨hd, -⟩
    · decide
    · exact hdigits hd
  · rcases hf with rfl | ⟨ds, rfl, hd⟩
    · decide
    · simpa using hdigits hd
  · rcases he with rfl | ⟨e, sign, ds, rfl, he, hs, hd⟩
    · decide
    · simp only [List.mem_cons, List.mem_append, not_or]
      refine ⟨?_, ?_, hdigits hd⟩
      · rcases he with rfl | rfl <;> decide
      · rcases hs with rfl | rfl | rfl <;> decide

theorem newline_notMem_of_isName {name : Text} (h : isName name = true) : '\n' ∉ name :=
  fun hm => absurd (isNameContinue_of_isName h _ hm) (by decide)

/-- A whole part starts with a digit. -/
theorem head_integer {integer : Text} (h : IsInteger integer) (rest : Text) :
    ∃ c cs, integer ++ rest = c :: cs ∧ isDigit c = true := by
  rcases h with rfl | ⟨hd, -⟩
  · exact ⟨'0', rest, rfl, rfl⟩
  · match integer, hd with
    | [], hd => exact absurd rfl hd.1
    | d :: ds, hd => exact ⟨d, ds ++ rest, rfl, hd.2 d (List.mem_cons_self ..)⟩

/-- A number is read up to what bounds it. -/
theorem number_append {digits rest : Text} (h : IsNumeral digits) (hr : IsBounded rest) :
    number (digits ++ rest) = .ok (digits, digits.length) := by
  obtain ⟨sign, integer, fraction, exponent, rfl, hsign, hinteger, hfraction, hexponent⟩ :=
    parts_of_isNumeral h
  obtain ⟨hdigit, hdot⟩ := head_exponent hexponent hr
  -- each part ends where the next one starts with a character that it cannot hold
  have hdigit' : NoDigit (fraction ++ (exponent ++ rest)) := by
    rcases hfraction with rfl | ⟨d, rfl, -⟩
    · exact hdigit
    · rintro c ⟨⟩; rfl
  have hminus : ∀ c ∈ (integer ++ (fraction ++ (exponent ++ rest))).head?, c ≠ '-' := by
    obtain ⟨c, cs, heq, hc⟩ := head_integer hinteger (fraction ++ (exponent ++ rest))
    rw [heq]
    rintro d ⟨⟩ rfl
    exact absurd hc (by decide)
  have hend : numberEnd rest = .ok ([], 0) := by
    match rest, hr with
    | [], _ => rfl
    | c :: cs, hr =>
        obtain ⟨hname, hne, -⟩ := isBoundary_iff.mp (isBounded_cons.mp hr)
        rw [numberEnd, if_neg]
        simp [hne, (Bool.or_eq_false_iff.mp hname).1]
  have htext : sign ++ integer ++ fraction ++ exponent ++ rest
      = sign ++ (integer ++ (fraction ++ (exponent ++ rest))) := by
    simp only [List.append_assoc]
  rw [number, htext, minusSign_append hsign hminus,
    followedBy_append (integerPart_append hinteger hdigit'), ← List.append_assoc,
    followedBy_append (fractionalPart_append hfraction hdigit hdot), ← List.append_assoc,
    followedBy_append (exponentPart_append hexponent hr), ← List.append_assoc,
    followedBy_append hend, List.append_nil]

end Lexer

end SchemaStitch

import SchemaStitch.Proofs.Lexing

/-! # Nothing is read across a line end

    A token other than a block string ends where its line ends.  So what the lexer finds in
    a text before a line end does not depend on what comes behind it, but for the three
    characters that the message about a broken escape shows (`SameStart`).  Each reader does
    the same before two such ends and takes nothing of them (`ReadsAlike`).  Hence a text
    without three quotes in a row (`Text.Unfenced`) can be put in front of two texts with the
    same tokens (`scan_append_congr`). -/

namespace SchemaStitch

/-- There are no three quotes in a row, so no block string opens in the text. -/
def Text.Unfenced (text : Text) : Prop :=
  ¬['"', '"', '"'] <:+: text

namespace Lexer

variable {α β ε : Type} {x y : Text}

/-- Two texts with the same three characters behind a line end. -/
inductive SameStart : Text → Text → Prop
  | intro {x y : Text} (h : x.take 3 = y.take 3) : SameStart ('\n' :: x) ('\n' :: y)

/-- What is read of a text in front of two others is the same and goes no further than the
    text. -/
structure ReadsAlike (x y : Text) (read : Text → Except ε (α × Nat)) (text : Text) : Prop where
  same : read (text ++ x) = read (text ++ y)
  within : ∀ value size, read (text ++ x) = .ok (value, size) → size ≤ text.length

/-! ## Looking ahead -/

/-- Behind a text, two such ends agree in the line end and three characters more. -/
theorem SameStart.take {n : Nat} (h : SameStart x y) (text : Text) (hn : n ≤ text.length + 4) :
    (text ++ x).take n = (text ++ y).take n := by
  obtain ⟨h⟩ := h
  rw [List.take_append, List.take_append]
  congr 1
  have hsmall : n - text.length ≤ 4 := by omega
  match n - text.length, hsmall with
  | 0, _ => rfl
  | m + 1, hm =>
      rw [List.take_succ_cons, List.take_succ_cons]
      congr 1
      have hm : m = min m 3 := by omega
      rw [hm, ← List.take_take, h, List.take_take]

/-- The next character is the same before two such ends. -/
theorem SameStart.head? (h : SameStart x y) (text : Text) :
    (text ++ x).head? = (text ++ y).head? := by
  obtain ⟨-⟩ := h
  cases text <;> rfl

/-- A run that no line end belongs to ends with the text. -/
theorem SameStart.takeWhile {p : Char → Bool} (h : SameStart x y) (hp : p '\n' = false)
    (text : Text) : (text ++ x).takeWhile p = text.takeWhile p
      ∧ (text ++ y).takeWhile p = text.takeWhile p := by
  have htake (z : Text) : (text ++ '\n' :: z).takeWhile p = text.takeWhile p := by
    induction text with
    | nil => exact List.takeWhile_cons_of_neg (by simp [hp])
    | cons c rest ih =>
        by_cases hc : p c = true
        · rw [List.cons_append, List.takeWhile_cons_of_pos hc, List.takeWhile_cons_of_pos hc, ih]
        · rw [List.cons_append, List.takeWhile_cons_of_neg hc, List.takeWhile_cons_of_neg hc]
  obtain ⟨-⟩ := h
  exact ⟨htake _, htake _⟩

/-- A line end is no hexadecimal digit, so four of them stand before it or nowhere. -/
theorem fourHexDigits_append_newline (text z : Text) :
    fourHexDigits (text ++ '\n' :: z) = fourHexDigits text := by
  have hnewline : hexDigit? '\n' = none := by decide
  match text with
  | [] =>
      match z with
      | [] | [_] | [_, _] | _ :: _ :: _ :: _ => simp [fourHexDigits, hnewline]
  | [a] =>
      match z with
      | [] | [_] | _ :: _ :: _ => cases h : hexDigit? a <;> simp [fourHexDigits, hnewline, h]
  | [a, b] =>
      match z with
      | [] | _ :: _ =>
          cases ha : hexDigit? a <;> cases hb : hexDigit? b <;>
            simp [fourHexDigits, hnewline, ha, hb]
  | [a, b, c] =>
      cases ha : hexDigit? a <;> cases hb : hexDigit? b <;> cases hc : hexDigit? c <;>
        simp [fourHexDigits, hnewline, ha, hb, hc]
  | _ :: _ :: _ :: _ :: _ => rfl

/-- Four digits that were read were there. -/
theorem length_of_fourHexDigits {text : Text} {code : Nat} (h : fourHexDigits text = some code) :
    4 ≤ text.length := by
  match text, h with
  | _ :: _ :: _ :: _ :: _, _ => simp

/-- The start of a second escape stands before the line end or nowhere. -/
theorem isSurrogateEscape_append_newline (text z : Text) :
    ['\\', 'u'].isPrefixOf (text ++ '\n' :: z) = ['\\', 'u'].isPrefixOf text := by
  match text with
  | [] => rfl
  | [c] => simp [List.isPrefixOf]
  | _ :: _ :: _ => simp [List.isPrefixOf]

/-- A second escape that was seen behind four digits was there. -/
theorem length_of_isSurrogateEscape {text : Text} (hl : 4 ≤ text.length)
    (h : ['\\', 'u'].isPrefixOf (text.drop 4) = true) : 6 ≤ text.length := by
  have hprefix := (List.isPrefixOf_iff_prefix.mp h).length_le
  rw [List.length_drop] at hprefix
  simp only [List.length_cons, List.length_nil] at hprefix
  omega

/-! ## Putting readings together -/

/-- What is read later takes the characters before it as well. -/
theorem size_of_later {count size : Nat} {f : α → β} {reading : Reading α} {value : β}
    (h : reading.later count f = .ok (value, size)) :
    ∃ v n, reading = .ok (v, n) ∧ size = count + n := by
  match reading, h with
  | .ok (v, n), h => exact ⟨v, n, rfl, (Prod.mk.inj (Except.ok.inj h)).2.symm⟩

namespace ReadsAlike

section

variable {read : Text → Except ε (α × Nat)} {text : Text}

/-- The same is read before both ends, and it is part of the text. -/
theorem taken {value : α} {size : Nat} (hx : read (text ++ x) = .ok (value, size))
    (hy : read (text ++ y) = .ok (value, size)) (hs : size ≤ text.length) :
    ReadsAlike x y read text := by
  refine ⟨hx.trans hy.symm, fun v n hread => ?_⟩
  obtain ⟨-, rfl⟩ := Prod.mk.inj (Except.ok.inj (hx.symm.trans hread))
  exact hs

/-- The same fault is found before both ends. -/
theorem failed {fault : ε} (hx : read (text ++ x) = .error fault)
    (hy : read (text ++ y) = .error fault) : ReadsAlike x y read text :=
  ⟨hx.trans hy.symm, fun _ _ hread => by cases hx.symm.trans hread⟩

end

variable {read : Text → Reading α} {text : Text}

/-- Another reader goes on behind some characters. -/
theorem later {inner : Text → Reading β} {rest : Text} {count : Nat} {f : β → α}
    (h : ReadsAlike x y inner rest) (hx : read (text ++ x) = (inner (rest ++ x)).later count f)
    (hy : read (text ++ y) = (inner (rest ++ y)).later count f)
    (hl : count + rest.length ≤ text.length) : ReadsAlike x y read text := by
  refine ⟨by rw [hx, hy, h.same], fun value size hread => ?_⟩
  rw [hx] at hread
  obtain ⟨v, n, hinner, rfl⟩ := size_of_later hread
  have hn := h.within v n hinner
  omega

/-- Two readers alike, one after the other, are alike together. -/
theorem followedBy {first second : Text → Reading Text} (hf : ReadsAlike x y first text)
    (hs : ∀ rest, ReadsAlike x y second rest) :
    ReadsAlike x y (fun t => (first t).followedBy t second) text := by
  have hsame := hf.same
  cases hread : first (text ++ x) with
  | error fault =>
      rw [hread] at hsame
      have hboth (z : Text) (hz : .error fault = first (text ++ z)) :
          (first (text ++ z)).followedBy (text ++ z) second = .error fault := by
        rw [← hz]
        rfl
      exact .failed (hboth x hread.symm) (hboth y hsame)
  | ok part =>
      obtain ⟨part, size⟩ := part
      rw [hread] at hsame
      have hsize := hf.within part size hread
      -- the first part ends within the text, so the second starts there as well
      have hboth (z : Text) (hz : .ok (part, size) = first (text ++ z)) :
          (first (text ++ z)).followedBy (text ++ z) second
            = (second (text.drop size ++ z)).later size (part ++ ·) := by
        rw [← hz, Reading.followedBy, List.drop_append_of_le_length hsize]
      refine .later (hs (text.drop size)) (hboth x hread.symm) (hboth y hsame) ?_
      rw [List.length_drop]
      omega

end ReadsAlike

/-! ## Numbers -/

section

variable (h : SameStart x y) (text : Text)
include h

/-- A run of digits ends before the line does. -/
theorem digitRun_alike : ReadsAlike x y digitRun text := by
  obtain ⟨hx, hy⟩ := h.takeWhile (p := isDigit) (by decide) text
  refine ⟨?_, fun value size hread => ?_⟩
  · rw [digitRun, digitRun, hx, hy, h.head? text]
  · rw [digitRun, hx] at hread
    split at hread
    · cases hread
    · obtain ⟨-, rfl⟩ := Prod.mk.inj (Except.ok.inj hread)
      exact (List.takeWhile_prefix _).length_le

theorem minusSign_alike : ReadsAlike x y minusSign text := by
  obtain ⟨-⟩ := h
  match text with
  | [] => exact .taken rfl rfl (Nat.zero_le _)
  | c :: rest =>
      by_cases hc : c = '-'
      · rw [hc]
        exact .taken rfl rfl (Nat.succ_le_succ (Nat.zero_le _))
      · have hnone (z : Text) : minusSign (c :: rest ++ z) = .ok ([], 0) := by
          rw [minusSign.eq_2]
          intro _ heq
          exact hc (List.cons.inj heq).1
        exact .taken (hnone _) (hnone _) (Nat.zero_le _)

/-- The whole part of a numeral ends before the line does, or it is refused alike. -/
theorem integerPart_alike : ReadsAlike x y integerPart text := by
  have hdigits (ht : text.head? ≠ some '0') : ReadsAlike x y integerPart text := by
    have hother (z : Text) (hz : (text ++ '\n' :: z).head? ≠ some '0') :
        integerPart (text ++ '\n' :: z) = digitRun (text ++ '\n' :: z) := by
      rw [integerPart.eq_2]
      intro c rest heq
      exact hz (by rw [heq]; rfl)
    -- nor does the line end make a zero of what is none
    have hhead (z : Text) : (text ++ '\n' :: z).head? ≠ some '0' := by
      cases text with
      | nil => exact fun heq => absurd (Option.some.inj heq) (by decide)
      | cons c rest => exact ht
    obtain ⟨hsame, hwithin⟩ := digitRun_alike h text
    obtain ⟨-⟩ := h
    rw [← hother _ (hhead _), ← hother _ (hhead _)] at hsame
    rw [← hother _ (hhead _)] at hwithin
    exact ⟨hsame, hwithin⟩
  cases text with
  | nil => exact hdigits (by decide)
  | cons c rest =>
      by_cases hzero : c = '0'
      · obtain rfl := hzero
        cases rest with
        | nil =>
            obtain ⟨-⟩ := h
            exact .taken rfl rfl (Nat.le_refl _)
        | cons d rest =>
            have hread (z : Text) : integerPart ('0' :: d :: rest ++ z)
                = if isDigit d then .error (.digitAfterZero d, 1) else .ok (['0'], 1) := rfl
            by_cases hd : isDigit d = true
            · exact .failed ((hread x).trans (if_pos hd)) ((hread y).trans (if_pos hd))
            · exact .taken ((hread x).trans (if_neg hd)) ((hread y).trans (if_neg hd))
                (Nat.succ_le_succ (Nat.zero_le _))
      · exact hdigits fun heq => hzero (Option.some.inj heq)

theorem fractionalPart_alike : ReadsAlike x y fractionalPart text := by
  obtain ⟨ht⟩ := id h
  match text with
  | [] => exact .taken rfl rfl (Nat.zero_le _)
  | c :: rest =>
      by_cases hc : c = '.'
      · rw [hc]
        refine .later (digitRun_alike h rest) rfl rfl ?_
        rw [List.length_cons, Nat.add_comm]
      · have hnone (z : Text) : fractionalPart (c :: rest ++ z) = .ok ([], 0) := by
          rw [fractionalPart.eq_2]
          intro _ heq
          exact hc (List.cons.inj heq).1
        exact .taken (hnone _) (hnone _) (Nat.zero_le _)

/-- The exponent of a numeral ends before the line does, or it is refused alike. -/
theorem exponentPart_alike : ReadsAlike x y exponentPart text := by
  obtain ⟨ht⟩ := id h
  match text with
  | [] => exact .taken rfl rfl (Nat.zero_le _)
  | c :: rest =>
      by_cases hc : (c = 'e' || c = 'E') = true
      · match rest with
        | [] =>
            exact .later (f := (c :: ·)) (digitRun_alike h []) (if_pos hc) (if_pos hc)
              (Nat.le_refl _)
        | sign :: rest =>
            by_cases hs : (sign = '+' || sign = '-') = true
            · refine .later (digitRun_alike h rest) ((if_pos hc).trans (if_pos hs))
                ((if_pos hc).trans (if_pos hs)) ?_
              rw [List.length_cons, List.length_cons]
              omega
            · refine .later (digitRun_alike h (sign :: rest)) ((if_pos hc).trans (if_neg hs))
                ((if_pos hc).trans (if_neg hs)) ?_
              rw [List.length_cons, List.length_cons, List.length_cons]
              omega
      · exact .taken (if_neg hc) (if_neg hc) (Nat.zero_le _)

/-- What must not follow a numeral is seen before the line end. -/
theorem numberEnd_alike : ReadsAlike x y numberEnd text := by
  obtain ⟨-⟩ := h
  match text with
  | [] => exact .taken rfl rfl (Nat.zero_le _)
  | c :: rest =>
      by_cases hc : (c = '.' || isNameStart c) = true
      · exact .failed (if_pos hc) (if_pos hc)
      · exact .taken (if_neg hc) (if_neg hc) (Nat.zero_le _)

/-- A numeral is read alike before both ends. -/
theorem number_alike : ReadsAlike x y number text :=
  have hsigned := (minusSign_alike h text).followedBy (integerPart_alike h)
  have hfraction := hsigned.followedBy (fractionalPart_alike h)
  have hexponent := hfraction.followedBy (exponentPart_alike h)
  hexponent.followedBy (numberEnd_alike h)

end

/-! ## Strings -/

/-- Each digit between the braces of an escape adds to its code. -/
theorem bracedDigits_cons {c : Char} (hc : c ≠ '}') (room size code : Nat) (text : Text) :
    bracedDigits (room + 1) size code (c :: text) = match hexDigit? c with
      | none => .error (size + 1)
      | some digit => bracedDigits room (size + 1) (code * 16 + digit) text :=
  if_neg hc

/-- Digits in braces end before the line does, or it is clear then that they do not end
    well. -/
theorem bracedDigits_append_newline (text : Text) (room size code : Nat) :
    (∃ c n, n ≤ size + text.length
        ∧ ∀ z, bracedDigits room size code (text ++ '\n' :: z) = .ok (c, n))
      ∨ ∃ n, n ≤ size + text.length + 1
        ∧ ∀ z, bracedDigits room size code (text ++ '\n' :: z) = .error n := by
  -- by the digits; reading ends at a brace, at what is no digit, or for want of room
  induction text generalizing room size code with
  | nil =>
      cases room with
      | zero => exact .inr ⟨size, Nat.le_succ _, fun _ => rfl⟩
      | succ room => exact .inr ⟨size + 1, Nat.le_refl _, fun _ => rfl⟩
  | cons c rest ih =>
      cases room with
      | zero => exact .inr ⟨size, by omega, fun _ => rfl⟩
      | succ room =>
          rw [List.length_cons]
          by_cases hc : c = '}'
          · by_cases hbad : (size < 4 || !isScalar code) = true
            · exact .inr ⟨size + 1, by omega, fun _ => (if_pos hc).trans (if_pos hbad)⟩
            · exact .inl ⟨Char.ofNat code, size + 1, by omega, fun _ =>
                (if_pos hc).trans (if_neg hbad)⟩
          · have hread (z : Text) := bracedDigits_cons hc room size code (rest ++ '\n' :: z)
            cases hd : hexDigit? c with
            | none =>
                simp only [hd] at hread
                exact .inr ⟨size + 1, by omega, hread⟩
            | some digit =>
                simp only [hd] at hread
                rcases ih room (size + 1) (code * 16 + digit) with ⟨d, n, hn, h⟩ | ⟨n, hn, h⟩
                · exact .inl ⟨d, n, by omega, fun z => (hread z).trans (h z)⟩
                · exact .inr ⟨n, by omega, fun z => (hread z).trans (h z)⟩

/-- But for the message, an escape by four digits does not depend on what stands behind the
    line end. -/
theorem fixedWidthEscape_append_newline (text z : Text) :
    fixedWidthEscape ('\\' :: 'u' :: text ++ '\n' :: z)
      = (fixedWidthEscape ('\\' :: 'u' :: text)).mapError fun _ =>
          .unicodeEscape (('\\' :: 'u' :: text ++ '\n' :: z).take 6) := by
  rw [fixedWidthEscape, fixedWidthEscape]
  simp only [List.cons_append, List.drop_succ_cons, List.drop_zero, fourHexDigits_append_newline]
  cases hcode : fourHexDigits text with
  | none => rfl
  | some code =>
      -- the four digits stand in the text, so what is looked at next starts in it
      have hlength := length_of_fourHexDigits hcode
      simp only
      rw [List.drop_append_of_le_length hlength, isSurrogateEscape_append_newline]
      by_cases hscalar : isScalar code = true
      · rw [if_pos hscalar, if_pos hscalar]
        rfl
      · rw [if_neg hscalar, if_neg hscalar]
        by_cases hpair : (code < 0xDC00 && ['\\', 'u'].isPrefixOf (text.drop 4)) = true
        · have hlong := length_of_isSurrogateEscape hlength (Bool.and_eq_true_iff.mp hpair).2
          rw [if_pos hpair, if_pos hpair, List.drop_append_of_le_length hlong,
            fourHexDigits_append_newline]
          cases fourHexDigits (text.drop 6) with
          | none => rfl
          | some low =>
              simp only
              split <;> rfl
        · rw [if_neg hpair, if_neg hpair]
          rfl

/-- An escape of fixed width is part of the text it was read from. -/
theorem size_of_fixedWidthEscape {text : Text} {read : Char × Nat}
    (h : fixedWidthEscape ('\\' :: 'u' :: text) = .ok read) : read.2 ≤ text.length + 2 := by
  rw [fixedWidthEscape] at h
  simp only [List.drop_succ_cons, List.drop_zero] at h
  cases hcode : fourHexDigits text with
  | none =>
      rw [hcode] at h
      cases h
  | some code =>
      have hlength := length_of_fourHexDigits hcode
      simp only [hcode] at h
      split at h
      · rw [← Except.ok.inj h]
        exact Nat.add_le_add_right hlength 2
      -- half a pair asks for the second escape right after it: twelve characters in all
      · split at h
        · cases hlow : fourHexDigits (text.drop 6) with
          | none =>
              rw [hlow] at h
              cases h
          | some low =>
              have hlong := length_of_fourHexDigits hlow
              rw [List.length_drop] at hlong
              simp only [hlow] at h
              split at h
              · rw [← Except.ok.inj h]
                show 12 ≤ text.length + 2
                omega
              · cases h
        · cases h

/-- An escape in braces is what its digits say; a message shows what was read of it. -/
theorem bracedEscape_append (text z : Text) :
    bracedEscape ('\\' :: 'u' :: '{' :: text ++ z) = match bracedDigits 9 3 0 (text ++ z) with
      | .ok result => .ok result
      | .error size => .error (.unicodeEscape (('\\' :: 'u' :: '{' :: text ++ z).take size)) :=
  rfl

/-- An escape by a letter needs one character behind the backslash. -/
theorem escapeSequence_append {c : Char} (hu : c ≠ 'u') (text z : Text) :
    escapeSequence ('\\' :: c :: text ++ z) = match escapedCharacter? c with
      | some d => .ok (d, 2)
      | none => .error (.characterEscape ['\\', c]) :=
  escapeSequence.eq_3 _ _ _ (fun _ hc _ => hu hc) hu

section

variable (h : SameStart x y) (text : Text)
include h

/-- An escape in braces is read alike before both ends, or refused with the same message. -/
theorem bracedEscape_alike :
    ReadsAlike x y bracedEscape ('\\' :: 'u' :: '{' :: text) := by
  have hfault (n : Nat) (hn : n ≤ 3 + text.length + 1) :
      ('\\' :: 'u' :: '{' :: text ++ x).take n = ('\\' :: 'u' :: '{' :: text ++ y).take n :=
    h.take ('\\' :: 'u' :: '{' :: text) (by simp only [List.length_cons]; omega)
  obtain ⟨-⟩ := h
  rcases bracedDigits_append_newline text 9 3 0 with ⟨d, n, hn, hok⟩ | ⟨n, hn, herror⟩
  · have htaken (z : Text) :
        bracedEscape ('\\' :: 'u' :: '{' :: text ++ '\n' :: z) = .ok (d, n) := by
      rw [bracedEscape_append, hok]
    refine .taken (htaken _) (htaken _) ?_
    simp only [List.length_cons]
    omega
  · have hfailed (z : Text) : bracedEscape ('\\' :: 'u' :: '{' :: text ++ '\n' :: z)
        = .error (.unicodeEscape (('\\' :: 'u' :: '{' :: text ++ '\n' :: z).take n)) := by
      rw [bracedEscape_append, herror]
    refine .failed (hfailed _) ?_
    rw [hfailed, hfault n hn]

/-- An escape of fixed width is read alike before both ends, or refused with the same message:
    that shows no more than the three characters behind the line end. -/
theorem fixedWidthEscape_alike : ReadsAlike x y fixedWidthEscape ('\\' :: 'u' :: text) := by
  have hfault : ('\\' :: 'u' :: text ++ x).take 6 = ('\\' :: 'u' :: text ++ y).take 6 :=
    h.take ('\\' :: 'u' :: text) (by simp only [List.length_cons]; omega)
  obtain ⟨-⟩ := h
  refine ⟨?_, fun value size hread => ?_⟩
  · rw [fixedWidthEscape_append_newline, fixedWidthEscape_append_newline, hfault]
  · rw [fixedWidthEscape_append_newline] at hread
    cases hescape : fixedWidthEscape ('\\' :: 'u' :: text) with
    | error fault =>
        rw [hescape] at hread
        cases hread
    | ok read =>
        rw [hescape] at hread
        obtain rfl := Except.ok.inj hread
        exact size_of_fixedWidthEscape hescape

/-- Any escape is read alike before both ends, or refused with the same message. -/
theorem escapeSequence_alike : ReadsAlike x y escapeSequence ('\\' :: text) := by
  cases text with
  | nil =>
      obtain ⟨-⟩ := h
      exact .failed rfl rfl
  | cons c rest =>
      -- an escape by a number is in braces or of fixed width; every other one is a single letter
      by_cases hu : c = 'u'
      · obtain rfl := hu
        by_cases hbrace : rest.head? = some '{'
        · obtain ⟨rest, rfl⟩ := List.head?_eq_some_iff.mp hbrace
          obtain ⟨hsame, hwithin⟩ := bracedEscape_alike h rest
          exact ⟨hsame, hwithin⟩
        · obtain ⟨hsame, hwithin⟩ := fixedWidthEscape_alike h rest
          obtain ⟨-⟩ := h
          have hfixed (z : Text) : escapeSequence ('\\' :: 'u' :: rest ++ '\n' :: z)
              = fixedWidthEscape ('\\' :: 'u' :: rest ++ '\n' :: z) := by
            refine escapeSequence.eq_2 _ _ fun others heq => ?_
            cases rest with
            | nil => exact absurd (List.cons.inj heq).1 (by decide)
            | cons d rest => exact hbrace (congrArg some (List.cons.inj heq).1)
          rw [← hfixed, ← hfixed] at hsame
          rw [← hfixed] at hwithin
          exact ⟨hsame, hwithin⟩
      · have hread (z : Text) := escapeSequence_append hu rest z
        cases hc : escapedCharacter? c with
        | none =>
            simp only [hc] at hread
            exact .failed (hread _) (hread _)
        | some d =>
            simp only [hc] at hread
            exact .taken (hread _) (hread _) (by simp only [List.length_cons]; omega)

/-- An escape sequence within the text goes on with what is read behind it. -/
theorem stringBody_escape_alike {rest : Text}
    (hrest : ∀ skip ≤ rest.length, ReadsAlike x y (stringBody skip) rest) :
    ReadsAlike x y (stringBody 0) ('\\' :: rest) := by
  have hfailed {z : Text} {fault : LexicalFault}
      (hz : escapeSequence ('\\' :: rest ++ z) = .error fault) :
      stringBody 0 ('\\' :: rest ++ z) = .error (fault, 0) := by
    rw [List.cons_append] at hz ⊢
    rw [stringBody, if_neg (by decide), if_pos rfl, hz]
  have hread {z : Text} {d : Char} {size : Nat}
      (hz : escapeSequence ('\\' :: rest ++ z) = .ok (d, size)) :
      stringBody 0 ('\\' :: rest ++ z)
        = (stringBody (size - 1) (rest ++ z)).later 1 (d :: ·) := by
    rw [List.cons_append] at hz ⊢
    rw [stringBody, if_neg (by decide), if_pos rfl, hz]
  -- the escape lies within the body, so it reads the same whatever follows
  obtain ⟨hsame, hwithin⟩ := escapeSequence_alike h rest
  cases hx : escapeSequence ('\\' :: rest ++ x) with
  | error fault =>
      rw [hx] at hsame
      exact .failed (hfailed hx) (hfailed hsame.symm)
  | ok read =>
      obtain ⟨d, size⟩ := read
      rw [hx] at hsame
      have hsize : size ≤ rest.length + 1 := hwithin d size hx
      refine .later (hrest (size - 1) (by omega)) (hread hx) (hread hsame.symm) ?_
      rw [List.length_cons, Nat.add_comm]

/-- A string is closed before the line end or is refused there. -/
theorem stringBody_alike (skip : Nat) (hs : skip ≤ text.length) :
    ReadsAlike x y (stringBody skip) text := by
  induction text generalizing skip with
  | nil =>
      obtain rfl : skip = 0 := Nat.le_zero.mp hs
      obtain ⟨-⟩ := h
      exact .failed rfl rfl
  | cons c rest ih =>
      have hl : 1 + rest.length ≤ (c :: rest).length := by rw [List.length_cons, Nat.add_comm]
      cases skip with
      | succ skip => exact .later (ih skip (Nat.le_of_succ_le_succ hs)) rfl rfl hl
      | zero =>
          -- a quote ends the body, a backslash starts an escape, a line end is a fault, and
          -- any other character is part of the value
          by_cases hquote : c = '"'
          · exact .taken (if_pos hquote) (if_pos hquote) (Nat.succ_le_succ (Nat.zero_le _))
          · by_cases hescape : c = '\\'
            · obtain rfl := hescape
              exact stringBody_escape_alike h ih
            · have hread (z : Text) : stringBody 0 (c :: rest ++ z)
                  = if Text.isNewline c then .error (.unterminatedString, 0)
                    else (stringBody 0 (rest ++ z)).later 1 (c :: ·) :=
                (if_neg hquote).trans (if_neg hescape)
              by_cases hnewline : Text.isNewline c = true
              · exact .failed ((hread _).trans (if_pos hnewline))
                  ((hread _).trans (if_pos hnewline))
              · exact .later (ih 0 (Nat.zero_le _)) ((hread _).trans (if_neg hnewline))
                  ((hread _).trans (if_neg hnewline)) hl

end

end Lexer

/-! ## Fences -/

/-- What stands behind a line end does not go on with what a text starts with. -/
theorem prefix_of_append_newline (start : Text) {text z : Text} (hs : '\n' ∉ start)
    (h : start <+: text ++ '\n' :: z) : start <+: text := by
  refine List.prefix_of_prefix_length_le h (List.prefix_append text _) ?_
  by_contra hlong
  refine hs ?_
  have hle : (text ++ ['\n']).length ≤ start.length := by
    rw [List.length_append, List.length_singleton]
    omega
  have hline : text ++ ['\n'] <+: start :=
    List.prefix_of_prefix_length_le ⟨z, by rw [List.append_assoc]; rfl⟩ h hle
  exact hline.subset (List.mem_append_right _ (List.mem_singleton_self _))

namespace Text

variable {first second text : Text}

/-- A text has no three quotes in a row if it does not start with them and the rest has none. -/
theorem unfenced_cons {c : Char} :
    Unfenced (c :: text) ↔ ¬['"', '"', '"'] <+: c :: text ∧ text.Unfenced := by
  rw [Unfenced, List.infix_cons_iff, not_or, Unfenced]

theorem unfenced_of_notMem (h : '"' ∉ text) : text.Unfenced :=
  fun hfence => h (hfence.subset (List.mem_cons_self ..))

/-- A text without quotes in front brings no three of them together. -/
theorem Unfenced.append (h : second.Unfenced) (hq : '"' ∉ first) : (first ++ second).Unfenced := by
  induction first with
  | nil => exact h
  | cons c rest ih =>
      rw [List.mem_cons, not_or] at hq
      rw [List.cons_append, unfenced_cons]
      exact ⟨fun hopen => hq.1 (List.cons_prefix_cons.mp hopen).1, ih hq.2⟩

/-- Fences do not go over lines. -/
theorem Unfenced.line (hf : first.Unfenced) (hs : second.Unfenced) :
    (first ++ '\n' :: second).Unfenced := by
  induction first with
  | nil =>
      have hline : '"' ∉ ['\n'] := by decide
      exact hs.append hline
  | cons c rest ih =>
      obtain ⟨hopen, hrest⟩ := unfenced_cons.mp hf
      rw [List.cons_append, unfenced_cons]
      exact ⟨fun hp => hopen (prefix_of_append_newline _ (by decide) hp), ih hrest⟩

/-- Indentation changes what is behind a line end only. -/
theorem prefix_of_prefix_shift {start : Text} {width : Nat} (hs : '\n' ∉ start)
    (h : start <+: shift width text) : start <+: text := by
  induction start generalizing text with
  | nil => exact List.nil_prefix
  | cons c rest ih =>
      rw [List.mem_cons, not_or] at hs
      match text, h with
      | [], h => exact absurd (List.prefix_nil.mp h) (List.cons_ne_nil _ _)
      | d :: text, h =>
          have hd : d ≠ '\n' := by
            rintro rfl
            rw [shift_newline] at h
            exact hs.1 (List.cons_prefix_cons.mp h).1.symm
          rw [shift_cons hd] at h
          obtain ⟨hc, hrest⟩ := List.cons_prefix_cons.mp h
          exact List.cons_prefix_cons.mpr ⟨hc, ih hs.2 hrest⟩

/-- Indentation brings no three quotes together. -/
theorem Unfenced.shift (h : text.Unfenced) (width : Nat) : (shift width text).Unfenced := by
  induction text with
  | nil => exact h
  | cons c rest ih =>
      obtain ⟨hopen, hrest⟩ := unfenced_cons.mp h
      by_cases hc : c = '\n'
      · have hblanks : '"' ∉ '\n' :: List.replicate width ' ' := by
          simp [List.mem_replicate]
        rw [hc, shift_newline]
        exact (ih hrest).append hblanks
      · rw [shift_cons hc, unfenced_cons]
        refine ⟨fun hp => hopen ?_, ih hrest⟩
        rw [← shift_cons hc width] at hp
        exact prefix_of_prefix_shift (by decide) hp

/-- Indenting opens no fence. -/
theorem Unfenced.indent (h : text.Unfenced) : text.indent.Unfenced := by
  have hblanks : '"' ∉ [' ', ' '] := by decide
  rw [Text.indent, indentTail_eq_shift]
  exact (h.shift 2).append hblanks

/-- Putting texts on lines of their own opens no fence. -/
theorem unfenced_join {parts : List Text} (h : ∀ part ∈ parts, part.Unfenced) :
    (join "\n" parts).Unfenced := by
  induction parts with
  | nil => exact unfenced_of_notMem List.not_mem_nil
  | cons part rest ih =>
      obtain ⟨hpart, hrest⟩ := List.forall_mem_cons.mp h
      cases rest with
      | nil =>
          rw [join, List.intercalate_singleton]
          exact hpart
      | cons next others =>
          rw [join, List.intercalate_cons_cons, ← join, List.append_assoc]
          exact hpart.line (ih hrest)

end Text

namespace Lexer

variable {x y : Text}

/-! ## Tokens -/

/-- A dot is part of a token only before two more. -/
theorem readToken_dot {text : Text} (h : ¬['.', '.'] <+: text) :
    readToken ('.' :: text) = .error (.unexpectedCharacter '.', 0) := by
  rw [readToken.eq_def]
  split
  · next heq => cases heq
  · next rest heq =>
      rw [(List.cons.inj heq).2] at h
      exact absurd ⟨rest, rfl⟩ h
  · next heq => exact absurd (List.cons.inj heq).1 (by decide)
  · next heq => exact absurd (List.cons.inj heq).1 (by decide)
  · next heq =>
      obtain ⟨rfl, rfl⟩ := List.cons.inj heq
      rfl

section

variable (h : SameStart x y)
include h

/-- Three dots are seen before the line end or refused alike. -/
theorem readToken_dot_alike (rest : Text) : ReadsAlike x y readToken ('.' :: rest) := by
  obtain ⟨-⟩ := h
  by_cases hspread : ['.', '.'] <+: rest
  · obtain ⟨behind, rfl⟩ := hspread
    exact .taken rfl rfl (by simp)
  · have hfailed (z : Text) :
        readToken ('.' :: rest ++ '\n' :: z) = .error (.unexpectedCharacter '.', 0) :=
      readToken_dot fun hp => hspread (prefix_of_append_newline _ (by decide) hp)
    exact .failed (hfailed _) (hfailed _)

/-- A quote that opens no block string opens a string, which ends before the line does. -/
theorem readToken_quote_alike {rest : Text} (ht : ¬['"', '"', '"'] <+: '"' :: rest) :
    ReadsAlike x y readToken ('"' :: rest) := by
  have hbody := stringBody_alike h rest 0 (Nat.zero_le _)
  obtain ⟨-⟩ := h
  have hread (z : Text) : readToken ('"' :: rest ++ '\n' :: z)
      = (stringBody 0 (rest ++ '\n' :: z)).later 1 .string := by
    refine readToken.eq_4 _ fun behind heq => ht ?_
    obtain ⟨others, hothers⟩ :=
      prefix_of_append_newline ['"', '"'] (by decide) ⟨behind, heq.symm⟩
    exact ⟨others, congrArg ('"' :: ·) hothers⟩
  exact .later hbody (hread _) (hread _) (by rw [List.length_cons, Nat.add_comm])

/-- A name ends before the line does. -/
theorem readToken_name_alike {c : Char} (hdot : c ≠ '.') (hquote : c ≠ '"')
    (hp : Punctuator.ofChar? c = none) (hname : isNameStart c = true) (rest : Text) :
    ReadsAlike x y readToken (c :: rest) := by
  obtain ⟨hx, hy⟩ := h.takeWhile (p := isNameContinue) (by decide) (c :: rest)
  rw [List.cons_append] at hx hy
  have htaken (z : Text) (hz : (c :: (rest ++ z)).takeWhile isNameContinue
      = (c :: rest).takeWhile isNameContinue) :
      readToken (c :: rest ++ z) = .ok (.name ((c :: rest).takeWhile isNameContinue),
        ((c :: rest).takeWhile isNameContinue).length) := by
    have hread := @readToken_cons c (rest ++ z) hdot hquote
    rw [hp] at hread
    rw [← hz]
    exact hread.trans (if_pos hname)
  exact .taken (htaken x hx) (htaken y hy) (List.takeWhile_prefix isNameContinue).length_le

/-- Where neither the text ends nor a block string opens, the same token is read. -/
theorem readToken_alike {c : Char} {rest : Text} (ht : ¬['"', '"', '"'] <+: c :: rest) :
    ReadsAlike x y readToken (c :: rest) := by
  by_cases hdot : c = '.'
  · obtain rfl := hdot
    exact readToken_dot_alike h rest
  by_cases hquote : c = '"'
  · obtain rfl := hquote
    exact readToken_quote_alike h ht
  have hread (z : Text) := @readToken_cons c (rest ++ z) hdot hquote
  -- the first character decides which reader goes on
  cases hp : Punctuator.ofChar? c with
  | some p =>
      rw [hp] at hread
      exact .taken (hread x) (hread y) (Nat.succ_le_succ (Nat.zero_le _))
  | none =>
      rw [hp] at hread
      by_cases hname : isNameStart c = true
      · exact readToken_name_alike h hdot hquote hp hname rest
      · by_cases hnumber : (isDigit c || c = '-') = true
        · refine .later (number_alike h (c :: rest))
            ((hread x).trans ((if_neg hname).trans (if_pos hnumber)))
            ((hread y).trans ((if_neg hname).trans (if_pos hnumber))) ?_
          exact Nat.le_of_eq (Nat.zero_add _)
        · have hfailed (z : Text) : readToken (c :: rest ++ z)
              = if c = '\'' then .error (.singleQuote, 0)
                else .error (.unexpectedCharacter c, 0) :=
            (hread z).trans ((if_neg hname).trans (if_neg hnumber))
          by_cases hsingle : c = '\''
          · exact .failed ((hfailed x).trans (if_pos hsingle)) ((hfailed y).trans (if_pos hsingle))
          · exact .failed ((hfailed x).trans (if_neg hsingle)) ((hfailed y).trans (if_neg hsingle))

/-! ## Scanning -/

/-- The tokens of a text in front of two others are the same, if those of the others are; the
    induction goes through the characters that the current token still has. -/
theorem map_token_lexemesFrom_congr (hscan : scan x = scan y) {text : Text}
    (ht : text.Unfenced) (skip position : Nat) (hs : skip ≤ text.length) :
    (lexemesFrom skip position (text ++ x)).map Lexeme.token
      = (lexemesFrom skip position (text ++ y)).map Lexeme.token := by
  induction text generalizing skip position with
  | nil =>
      obtain rfl : skip = 0 := Nat.le_zero.mp hs
      rw [List.nil_append, List.nil_append, map_token_lexemesFrom_eq_scan,
        map_token_lexemesFrom_eq_scan, hscan]
  | cons c rest ih =>
      obtain ⟨hopen, hrest⟩ := Text.unfenced_cons.mp ht
      rw [List.cons_append, List.cons_append]
      cases skip with
      | succ skip => exact ih hrest skip (position + 1) (Nat.le_of_succ_le_succ hs)
      | zero =>
          rw [lexemesFrom, lexemesFrom]
          by_cases hi : isIgnored c = true
          · rw [if_pos hi, if_pos hi]
            exact ih hrest 0 (position + 1) (Nat.zero_le _)
          rw [if_neg hi, if_neg hi]
          by_cases hcomment : c = '#'
          · rw [if_pos hcomment, if_pos hcomment]
            obtain ⟨hx, hy⟩ := h.takeWhile (p := fun c => !Text.isNewline c) (by decide) rest
            rw [commentBody, hx, commentBody, hy]
            exact ih hrest _ (position + 1) (List.takeWhile_prefix _).length_le
          rw [if_neg hcomment, if_neg hcomment]
          -- here a token starts; as no block string opens, it ends before the line does
          have halike := readToken_alike h hopen
          have hsame := halike.same
          rw [List.cons_append, List.cons_append] at hsame
          cases hread : readToken (c :: (rest ++ x)) with
          | error fault => rw [← hsame, hread]
          | ok read =>
              have hsize : read.2 ≤ rest.length + 1 := halike.within read.1 read.2 hread
              rw [← hsame, hread]
              exact congrArg (.ok read.1 :: ·) (ih hrest (read.2 - 1) (position + 1) (by omega))

/-- A text without three quotes in a row goes on with one text or the other, and what is
    scanned differs no more than they do. -/
theorem scan_append_congr (hscan : scan x = scan y) {text : Text}
    (ht : text.Unfenced) : scan (text ++ x) = scan (text ++ y) :=
  map_token_lexemesFrom_congr h hscan ht 0 0 (Nat.zero_le _)

end

end Lexer

end SchemaStitch

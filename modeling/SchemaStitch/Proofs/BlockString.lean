import Mathlib.Data.List.DropRight
import SchemaStitch.Proofs.Lines
import SchemaStitch.Token.BlockString

/-! # Block strings keep their value

    The value of a block string consists of lines that are flush: blank lines are gone
    from both ends, and what stands on several lines shares no indentation
    (`dedent_isFlush`).  Printing frames such a value with line ends where it needs them.
    However far the printed text is then shifted, reading it takes the frame and the
    shift away again (`valueOf_shift_framed`). -/

namespace SchemaStitch.BlockString

variable {line value : Text} {lines blanks : List Text} {width : Nat}

/-! ## Common indentation -/

/-- Indenting a line makes it no more and no less blank. -/
theorem isBlankLine_shifted (width : Nat) (line : Text) :
    isBlankLine (List.replicate width ' ' ++ line) = isBlankLine line := by
  simp [isBlankLine, isIndent]

theorem isBlankLine_replicate (width : Nat) : isBlankLine (List.replicate width ' ') = true := by
  simp [isBlankLine, isIndent]

/-- Indenting a line adds to the width of its indentation. -/
theorem indentWidth_shifted (width : Nat) (line : Text) :
    indentWidth (List.replicate width ' ' ++ line) = width + indentWidth line := by
  rw [indentWidth, List.takeWhile_append_of_pos (by simp [isIndent]), List.length_append,
    List.length_replicate, indentWidth]

/-- Lines that are shifted together share the shift, too. -/
theorem commonIndent_shifted (width : Nat) (lines : List Text) :
    commonIndent (lines.map (List.replicate width ' ' ++ ·))
      = (commonIndent lines).map (width + ·) := by
  induction lines with
  | nil => rfl
  | cons line rest ih =>
      rw [List.map_cons, commonIndent, commonIndent, isBlankLine_shifted, ih]
      cases hb : isBlankLine line with
      | true => rfl
      | false =>
          cases commonIndent rest with
          | none => simp [indentWidth_shifted]
          | some w => simp [indentWidth_shifted, Nat.add_min_add_left]

/-- Only blank lines have no common indentation. -/
theorem isBlankLine_of_commonIndent_none (h : commonIndent lines = none) :
    ∀ line ∈ lines, isBlankLine line = true := by
  induction lines with
  | nil => simp
  | cons line rest ih =>
      rw [commonIndent] at h
      cases hb : isBlankLine line with
      | true =>
          rw [hb, if_pos rfl] at h
          intro l hl
          rcases List.mem_cons.mp hl with rfl | hl
          · exact hb
          · exact ih h l hl
      | false =>
          rw [hb] at h
          cases hr : commonIndent rest <;> simp [hr] at h

/-- Blank lines alone share no indentation. -/
theorem commonIndent_of_blank (h : ∀ line ∈ lines, isBlankLine line = true) :
    commonIndent lines = none := by
  induction lines with
  | nil => rfl
  | cons line rest ih =>
      rw [commonIndent, if_pos (h line (List.mem_cons_self ..))]
      exact ih fun l hl => h l (List.mem_cons_of_mem _ hl)

/-- Blank lines behind the others share in no indentation. -/
theorem commonIndent_append_blank (lines : List Text)
    (h : ∀ line ∈ blanks, isBlankLine line = true) :
    commonIndent (lines ++ blanks) = commonIndent lines := by
  induction lines with
  | nil => exact commonIndent_of_blank h
  | cons line rest ih => rw [List.cons_append, commonIndent, commonIndent, ih]

/-- Blank lines in front have no say in the common indentation. -/
theorem commonIndent_dropWhile (lines : List Text) :
    commonIndent (lines.dropWhile isBlankLine) = commonIndent lines := by
  induction lines with
  | nil => rfl
  | cons line rest ih =>
      cases hb : isBlankLine line with
      | true => rw [List.dropWhile_cons_of_pos hb, ih, commonIndent, if_pos hb]
      | false => rw [List.dropWhile_cons_of_neg (by simp [hb])]

/-- Blank lines at the end have no say in the common indentation. -/
theorem commonIndent_rdropWhile (lines : List Text) :
    commonIndent (lines.rdropWhile isBlankLine) = commonIndent lines := by
  have hblank : ∀ line ∈ lines.rtakeWhile isBlankLine, isBlankLine line = true :=
    fun line hl => List.mem_rtakeWhile_imp hl
  conv => rhs; rw [← List.rdropWhile_append_rtakeWhile (p := isBlankLine) (l := lines)]
  exact (commonIndent_append_blank _ hblank).symm

/-- Blank lines at the ends share in no indentation. -/
theorem commonIndent_trimBlankLines (lines : List Text) :
    commonIndent (trimBlankLines lines) = commonIndent lines :=
  (commonIndent_rdropWhile _).trans (commonIndent_dropWhile lines)

/-- Cutting a blank line leaves it blank. -/
theorem isBlankLine_drop (hb : isBlankLine line = true) (width : Nat) :
    isBlankLine (line.drop width) = true := by
  rw [isBlankLine, List.all_eq_true] at hb ⊢
  exact fun c hc => hb c (List.mem_of_mem_drop hc)

/-- A line that is not blank keeps its text when only indentation is taken off. -/
theorem indentWidth_drop (hb : isBlankLine line = false) (hle : width ≤ indentWidth line) :
    isBlankLine (line.drop width) = false
      ∧ indentWidth (line.drop width) = indentWidth line - width := by
  -- what is taken off lies in the indentation, and behind this stands another character
  have hsplit : line.drop width
      = (line.takeWhile isIndent).drop width ++ line.dropWhile isIndent := by
    conv => lhs; rw [← List.takeWhile_append_dropWhile (p := isIndent) (l := line)]
    exact List.drop_append_of_le_length hle
  have hpos : ∀ c ∈ (line.takeWhile isIndent).drop width, isIndent c = true :=
    fun c hc => List.mem_takeWhile_imp (List.mem_of_mem_drop hc)
  obtain ⟨c, cs, hrest⟩ : ∃ c cs, line.dropWhile isIndent = c :: cs := by
    refine List.exists_cons_of_ne_nil fun hnil => ?_
    rw [isBlankLine, List.all_eq_true.mpr (List.dropWhile_eq_nil_iff.mp hnil)] at hb
    exact Bool.noConfusion hb
  have hc : isIndent c = false := by
    have := List.head?_dropWhile_not isIndent line
    rw [hrest] at this
    simpa using this
  rw [hsplit, hrest]
  constructor
  · rw [isBlankLine, List.all_append, List.all_cons, hc, Bool.false_and, Bool.and_false]
  · rw [indentWidth, List.takeWhile_append_of_pos hpos, List.takeWhile_cons_of_neg (by simp [hc]),
      List.append_nil, List.length_drop, indentWidth]

/-- Lines lose as much of their common indentation as is taken off each of them. -/
theorem commonIndent_map_drop {common : Nat} (h : commonIndent lines = some common)
    (hw : width ≤ common) : commonIndent (lines.map (List.drop width)) = some (common - width) := by
  induction lines generalizing common with
  | nil => cases h
  | cons line rest ih =>
      rw [List.map_cons, commonIndent]
      rw [commonIndent] at h
      cases hb : isBlankLine line with
      | true =>
          rw [hb, if_pos rfl] at h
          rw [isBlankLine_drop hb, if_pos rfl]
          exact ih h hw
      | false =>
          rw [hb] at h
          -- if all other lines are blank, this one decides alone
          cases hr : commonIndent rest with
          | none =>
              simp only [hr, Bool.false_eq_true, if_false, Option.some.injEq] at h
              obtain ⟨h1, h2⟩ := indentWidth_drop hb (show width ≤ indentWidth line by omega)
              have hall : ∀ l ∈ rest.map (List.drop width), isBlankLine l = true := by
                intro l hl
                obtain ⟨l', hl', rfl⟩ := List.mem_map.mp hl
                exact isBlankLine_drop (isBlankLine_of_commonIndent_none hr l' hl') width
              rw [h1, commonIndent_of_blank hall, h2, ← h]
              rfl
          | some w =>
              simp only [hr, Bool.false_eq_true, if_false, Option.some.injEq] at h
              obtain ⟨h1, h2⟩ := indentWidth_drop hb (show width ≤ indentWidth line by omega)
              rw [h1, ih hr (by omega), h2]
              simp only [Bool.false_eq_true, if_false, Option.some.injEq]
              omega

/-! ## Flush lines -/

/-- Lines as the value of a block string has them: no line holds a line end, neither end
    is blank, and several lines share no indentation. -/
structure IsFlush (lines : List Text) : Prop where
  single : ∀ line ∈ lines, ∀ c ∈ line, Text.isNewline c = false
  first : lines.dropWhile isBlankLine = lines
  last : lines.rdropWhile isBlankLine = lines
  common : 1 < lines.length → commonIndent lines = some 0

/-- Trimming takes lines off the ends only. -/
theorem trimBlankLines_sublist (lines : List Text) : (trimBlankLines lines).Sublist lines :=
  (List.rdropWhile_prefix isBlankLine _).sublist.trans (List.dropWhile_sublist isBlankLine)

/-- Trimming leaves no blank line at either end. -/
theorem dropWhile_trimBlankLines (lines : List Text) :
    (trimBlankLines lines).dropWhile isBlankLine = trimBlankLines lines := by
  refine List.dropWhile_eq_self_iff.mpr fun hpos => ?_
  have hpre : trimBlankLines lines <+: lines.dropWhile isBlankLine :=
    List.rdropWhile_prefix isBlankLine _
  rw [hpre.getElem hpos]
  exact List.dropWhile_get_zero_not isBlankLine lines (Nat.lt_of_lt_of_le hpos hpre.length_le)

theorem rdropWhile_trimBlankLines (lines : List Text) :
    (trimBlankLines lines).rdropWhile isBlankLine = trimBlankLines lines :=
  List.rdropWhile_idempotent isBlankLine _

/-- Blank lines behind the others are trimmed away. -/
theorem trimBlankLines_append_blank (lines : List Text)
    (h : ∀ line ∈ blanks, isBlankLine line = true) :
    trimBlankLines (lines ++ blanks) = trimBlankLines lines := by
  have hrev : ∀ line ∈ blanks.reverse, isBlankLine line = true :=
    fun line hl => h line (List.mem_reverse.mp hl)
  rw [trimBlankLines, trimBlankLines, List.dropWhile_append]
  cases hd : lines.dropWhile isBlankLine with
  | nil => rw [List.isEmpty_nil, if_pos rfl, List.dropWhile_eq_nil_iff.mpr h]
  | cons line rest =>
      rw [List.isEmpty_cons, if_neg Bool.false_ne_true, List.reverse_append,
        List.dropWhile_append_of_pos hrev]

/-- Flush lines have no blank lines to trim. -/
theorem IsFlush.trim (h : IsFlush lines) : trimBlankLines lines = lines := by
  have hlast : (lines.reverse.dropWhile isBlankLine).reverse = lines := h.last
  rw [trimBlankLines, h.first, hlast]

/-- Blank lines around flush ones are trimmed away. -/
theorem IsFlush.trimBlankLines_frame (h : IsFlush lines) {before after : List Text}
    (hb : ∀ line ∈ before, isBlankLine line = true)
    (ha : ∀ line ∈ after, isBlankLine line = true) :
    trimBlankLines (before ++ lines ++ after) = lines := by
  rw [trimBlankLines_append_blank _ ha, trimBlankLines, List.dropWhile_append_of_pos hb]
  exact h.trim

/-- What dedenting leaves is flush. -/
theorem dedent_isFlush (content : Text) : IsFlush (dedent content.lines) := by
  obtain ⟨first, rest, hlines⟩ := List.exists_cons_of_ne_nil (Text.lines_ne_nil content)
  have hmem : ∀ line ∈ dedent content.lines,
      line = first ∨ ∃ l ∈ rest, line = l.drop ((commonIndent rest).getD 0) := by
    intro line hl
    rw [hlines] at hl
    rcases List.mem_cons.mp ((trimBlankLines_sublist _).subset hl) with h1 | h1
    · exact .inl h1
    · obtain ⟨l, hl, hdrop⟩ := List.mem_map.mp h1
      exact .inr ⟨l, hl, hdrop.symm⟩
  refine ⟨?_, ?_, ?_, ?_⟩
  · intro line hl c hc
    rcases hmem line hl with rfl | ⟨l, hr, rfl⟩
    · exact Text.not_newline_of_mem_lines (hlines ▸ List.mem_cons_self ..) c hc
    · have hl : l ∈ content.lines := hlines ▸ List.mem_cons_of_mem _ hr
      exact Text.not_newline_of_mem_lines hl c (List.mem_of_mem_drop hc)
  · rw [hlines]; exact dropWhile_trimBlankLines _
  · rw [hlines]; exact rdropWhile_trimBlankLines _
  · intro hlen
    rw [hlines, dedent] at hlen ⊢
    rw [commonIndent_trimBlankLines]
    cases hw : commonIndent rest with
    | none =>
        -- only the first line has text, so no second one is left
        exfalso
        have hall : ∀ l ∈ rest.map (List.drop 0), isBlankLine l = true := by
          simpa using isBlankLine_of_commonIndent_none hw
        have hone : (trimBlankLines [first]).length ≤ 1 := (trimBlankLines_sublist [first]).length_le
        rw [hw, Option.getD_none, ← List.singleton_append, trimBlankLines_append_blank _ hall] at hlen
        omega
    | some w =>
        rw [Option.getD_some, commonIndent, commonIndent_map_drop hw (Nat.le_refl w), Nat.sub_self]
        cases isBlankLine first <;> simp

/-! ## Values -/

/-- The text of a block string as it may be read: lines that are flush. -/
def IsValue (value : Text) : Prop :=
  ∃ lines, IsFlush lines ∧ value = Text.join ['\n'] lines

/-- What is read is the text of a block string. -/
theorem isValue_valueOf (content : Text) : IsValue (valueOf content) :=
  ⟨_, dedent_isFlush content, rfl⟩

/-- Flush lines hold no line ends. -/
theorem IsFlush.notMem (h : IsFlush lines) {c : Char} (hc : Text.isNewline c = true) :
    ∀ line ∈ lines, c ∉ line := by
  intro line hl hm
  rw [h.single line hl c hm] at hc
  exact Bool.noConfusion hc

/-- Flush lines can be joined and cut again. -/
theorem IsFlush.splitOn_join (h : IsFlush lines) (hne : lines ≠ []) :
    (Text.join ['\n'] lines).splitOn '\n' = lines :=
  List.splitOn_intercalate '\n' (h.notMem rfl) hne

theorem IsFlush.carriageReturn_notMem (h : IsFlush lines) : '\r' ∉ Text.join ['\n'] lines := by
  intro hm
  rcases Text.mem_of_mem_join hm with hc | ⟨line, hl, hc⟩
  · simp at hc
  · exact h.notMem rfl line hl hc

/-! ## Reading a shifted frame -/

/-- Lines on lines of their own are read back, however far they are shifted. -/
theorem valueOf_shift_lines (h : IsFlush lines) (hcommon : commonIndent lines = some 0)
    (width : Nat) :
    valueOf (Text.shift width ('\n' :: (Text.join ['\n'] lines ++ ['\n'])))
      = Text.join ['\n'] lines := by
  have hne : lines ≠ [] := by
    rintro rfl
    cases hcommon
  -- the frame adds a blank line at either end, and shifting indents every line but the first
  have hsplit : ('\n' :: (Text.join ['\n'] lines ++ ['\n'])).splitOn '\n'
      = [] :: (lines ++ [[]]) := by
    rw [List.splitOn_cons_eq_if_modifyHead, if_pos (beq_self_eq_true _),
      List.splitOn_append_cons_self, h.splitOn_join hne, List.splitOn_nil]
  have hcr : '\r' ∉ Text.shift width ('\n' :: (Text.join ['\n'] lines ++ ['\n'])) := by
    have := h.carriageReturn_notMem
    simp [Text.mem_shift, this]
  have hdrop : ((lines ++ [[]]).map (List.replicate width ' ' ++ ·)).map (List.drop width)
      = lines ++ [[]] := by
    rw [List.map_map]
    refine (List.map_congr_left fun line _ => ?_).trans (List.map_id _)
    exact List.drop_left' (List.length_replicate ..)
  have hblank : ∀ l ∈ [([] : Text)], isBlankLine l = true := by simp [isBlankLine]
  have htrim : trimBlankLines ([[]] ++ lines ++ [[]]) = lines :=
    h.trimBlankLines_frame hblank hblank
  have hshift : commonIndent ((lines ++ [[]]).map (List.replicate width ' ' ++ ·))
      = some width := by
    rw [commonIndent_shifted, commonIndent_append_blank _ (by simp [isBlankLine]), hcommon]
    rfl
  rw [valueOf, Text.lines_eq_splitOn hcr, Text.splitOn_shift width hsplit, dedent, hshift,
    Option.getD_some, hdrop]
  exact congrArg _ htrim

/-- A single line behind the opening quotes is read back. -/
theorem valueOf_line (h : IsFlush [line]) : valueOf line = line := by
  have hcr : '\r' ∉ line := h.notMem rfl line (List.mem_singleton_self _)
  have hlf : '\n' ∉ line := h.notMem rfl line (List.mem_singleton_self _)
  have htrim : trimBlankLines [line] = [line] :=
    h.trim
  rw [valueOf, Text.lines_eq_splitOn hcr, List.splitOn_eq_singleton hlf, dedent, List.map_nil, htrim]
  exact List.intercalate_singleton

/-- A single line before a line end is read back, whatever stands before the closing
    quotes. -/
theorem valueOf_shift_line (h : IsFlush [line]) (width : Nat) :
    valueOf (Text.shift width (line ++ ['\n'])) = line := by
  have hcr : '\r' ∉ line := h.notMem rfl line (List.mem_singleton_self _)
  have hlf : '\n' ∉ line := h.notMem rfl line (List.mem_singleton_self _)
  have hsplit : (line ++ ['\n']).splitOn '\n' = line :: [[]] := by
    rw [List.splitOn_append_cons_self_of_not_mem hlf, List.splitOn_nil]
  have hcr' : '\r' ∉ Text.shift width (line ++ ['\n']) := by
    simp [Text.mem_shift, hcr]
  have hblank : ∀ l ∈ [List.replicate width ' '], isBlankLine l = true := by
    simpa using isBlankLine_replicate width
  have htrim : trimBlankLines [line, List.replicate width ' '] = [line] :=
    (trimBlankLines_append_blank [line] hblank).trans h.trim
  rw [valueOf, Text.lines_eq_splitOn hcr', Text.splitOn_shift width hsplit, List.map_singleton,
    List.append_nil, dedent, commonIndent_of_blank hblank, Option.getD_none, List.map_singleton,
    List.drop_zero, htrim]
  exact List.intercalate_singleton

/-! ## Escaping -/

/-- A text starts with three quotes, or escaping keeps its first character. -/
theorem escape_cons {c : Char} {text : Text}
    (h : ∀ cs, c = '"' → text = '"' :: '"' :: cs → False) :
    escape (c :: text) = c :: escape text := by
  rw [escape.eq_2 c text h]

/-- Without quotes there is nothing to escape. -/
theorem escape_eq_self {text : Text} (h : '"' ∉ text) : escape text = text := by
  induction text using escape.induct with
  | case1 cs ih => exact absurd List.mem_cons_self h
  | case2 c cs hc ih => rw [escape_cons hc, ih fun hm => h (List.mem_cons_of_mem _ hm)]
  | case3 => rfl

/-- A line end is no part of three quotes. -/
theorem escape_newline (text : Text) : escape ('\n' :: text) = '\n' :: escape text :=
  escape_cons fun _ hc _ => absurd hc (by decide)

/-- Escaping does not look over a line end. -/
theorem escape_append_newline (first second : Text) :
    escape (first ++ '\n' :: second) = escape first ++ '\n' :: escape second := by
  induction first using escape.induct with
  | case1 cs ih =>
      rw [escape, List.cons_append, List.cons_append, List.cons_append, escape, ih]
      rfl
  | case2 c cs h ih =>
      have h' : ∀ ds, c = '"' → cs ++ '\n' :: second = '"' :: '"' :: ds → False := by
        intro ds hc hds
        match cs, hds with
        | [], hds => simp at hds
        | [d], hds => simp at hds
        | d :: e :: rest, hds =>
            simp only [List.cons_append, List.cons.injEq] at hds
            exact h rest hc (by rw [hds.1, hds.2.1])
      rw [escape_cons h, List.cons_append, escape_cons h', ih]
      rfl
  | case3 => exact escape_newline second

/-- Indentation is no part of three quotes. -/
theorem escape_blanks (width : Nat) (text : Text) :
    escape (List.replicate width ' ' ++ text) = List.replicate width ' ' ++ escape text := by
  induction width with
  | zero => rfl
  | succ width ih =>
      rw [List.replicate_succ, List.cons_append,
        escape_cons fun _ hc _ => absurd hc (by decide), ih]
      rfl

/-- Escaping and shifting do not get into each other's way. -/
theorem escape_shift (width : Nat) (text : Text) :
    escape (Text.shift width text) = Text.shift width (escape text) := by
  induction text using escape.induct with
  | case1 cs ih =>
      rw [escape]
      simp only [Text.shift_cons (show '"' ≠ '\n' by decide),
        Text.shift_cons (show '\\' ≠ '\n' by decide)]
      rw [escape, ih]
  | case2 c cs h ih =>
      rw [escape_cons h]
      by_cases hc : c = '\n'
      · rw [hc, Text.shift_newline, Text.shift_newline, escape_newline, escape_blanks, ih]
      · -- shifting moves no quotes together, so there is nothing more to be escaped
        have h' : ∀ ds, c = '"' → Text.shift width cs = '"' :: '"' :: ds → False := by
          intro ds hq hds
          match cs, hds with
          | d :: rest, hds =>
              by_cases hd : d = '\n'
              · simp [hd] at hds
              · rw [Text.shift_cons hd] at hds
                obtain ⟨hd', hds⟩ := List.cons.inj hds
                match rest, hds with
                | e :: others, hds =>
                    by_cases he : e = '\n'
                    · simp [he] at hds
                    · rw [Text.shift_cons he] at hds
                      exact h others hq (by rw [hd', (List.cons.inj hds).1])
        rw [Text.shift_cons hc, Text.shift_cons hc, escape_cons h', ih]
  | case3 => rfl

/-- Escaping adds backslashes only. -/
theorem count_escape {c : Char} (hc : c ≠ '\\') (text : Text) :
    (escape text).count c = text.count c := by
  induction text using escape.induct with
  | case1 cs ih =>
      rw [escape, List.count_cons_of_ne (Ne.symm hc)]
      simp only [List.count_cons, ih]
  | case2 d cs h ih => rw [escape_cons h, List.count_cons, List.count_cons, ih]
  | case3 => rfl

/-! ## The frame -/

/-- The line end that printing puts behind the opening quotes, or nothing. -/
def leadingBreak (value : Text) : Text :=
  if (onOwnLines value && !isIndentedLine value) || needsLeadingNewline value then ['\n'] else []

/-- The line end that printing puts before the closing quotes, or nothing. -/
def trailingBreak (value : Text) : Text :=
  if onOwnLines value || needsTrailingNewline value then ['\n'] else []

/-- What stands between the quotes once escapes are resolved. -/
def framed (value : Text) : Text :=
  leadingBreak value ++ (value ++ trailingBreak value)

/-- Printing escapes the framed value. -/
theorem print_eq_framed (value : Text) :
    print value = '"' :: '"' :: '"' :: (escape (framed value) ++ ['"', '"', '"']) := by
  have htrail : escape (value ++ trailingBreak value) = escape value ++ trailingBreak value := by
    rw [trailingBreak]
    split
    · rw [escape_append_newline, escape]
    · rw [List.append_nil, List.append_nil]
  have hframe : escape (framed value) = leadingBreak value ++ (escape value ++ trailingBreak value) := by
    rw [framed, ← htrail]
    rw [leadingBreak]
    split
    · exact escape_newline _
    · rfl
  show ['"', '"', '"'] ++ leadingBreak value ++ escape value ++ trailingBreak value
    ++ ['"', '"', '"'] = _
  rw [hframe]
  simp

/-- Escaping keeps the number of lines. -/
theorem length_lines_escape (h : IsFlush lines) (hne : lines ≠ []) :
    (escape (Text.join ['\n'] lines)).lines.length = lines.length := by
  have hcr : '\r' ∉ escape (Text.join ['\n'] lines) := by
    rw [← List.count_eq_zero, count_escape (by decide), List.count_eq_zero]
    exact h.carriageReturn_notMem
  rw [Text.lines_eq_splitOn hcr, Text.length_splitOn, count_escape (by decide),
    ← Text.length_splitOn, h.splitOn_join hne]

/-- A single line shares its indentation with no other. -/
theorem needsLeadingNewline_of_length {value : Text} (h : (escape value).lines.length ≤ 1) :
    needsLeadingNewline value = false := by
  rw [needsLeadingNewline]
  split
  · next first line rest hlines =>
      rw [hlines] at h
      simp at h
  · rfl

/-- Printed, shifted and read again, a block string has its value. -/
theorem valueOf_shift_framed {value : Text} (hv : IsValue value) (width : Nat) :
    valueOf (Text.shift width (framed value)) = value := by
  obtain ⟨lines, h, rfl⟩ := hv
  -- several lines always stand on lines of their own, a single one only if it has to
  match lines, h with
  | [], _ => rfl
  | [line], h =>
      have hjoin : Text.join ['\n'] [line] = line := List.intercalate_singleton
      rw [hjoin]
      have hlen : (escape line).lines.length = 1 := by
        simpa [Text.join] using length_lines_escape h (List.cons_ne_nil _ _)
      have hlead : needsLeadingNewline line = false := needsLeadingNewline_of_length (by omega)
      have hlf : '\n' ∉ line := h.notMem rfl line (List.mem_singleton_self _)
      rw [framed, leadingBreak, trailingBreak, hlead, Bool.or_false]
      by_cases hown : (onOwnLines line && !isIndentedLine line) = true
      · obtain ⟨hown, hindent⟩ := Bool.and_eq_true_iff.mp hown
        have hcommon : commonIndent [line] = some 0 := by
          have hfirst := List.dropWhile_eq_self_iff.mp h.first (Nat.succ_pos 0)
          cases line with
          | nil => exact absurd rfl hfirst
          | cons c cs =>
              have hc : isIndent c = false := by simpa [isIndentedLine, hlen] using hindent
              simp [commonIndent, isBlankLine, indentWidth, hc]
        rw [hown, hindent, Bool.and_self, Bool.true_or, if_pos rfl]
        have hread := valueOf_shift_lines h hcommon width
        rw [hjoin] at hread
        exact hread
      · rw [if_neg hown, List.nil_append]
        split
        · exact valueOf_shift_line h width
        · rw [List.append_nil, Text.shift_eq_self width hlf]
          exact valueOf_line h
  | first :: second :: rest, h =>
      have hlen := length_lines_escape h (List.cons_ne_nil _ _)
      generalize hvalue : Text.join ['\n'] (first :: second :: rest) = value at hlen ⊢
      have hown : onOwnLines value = true := by simp [onOwnLines, hlen]
      have hindent : isIndentedLine value = false := by simp [isIndentedLine, hlen]
      rw [framed, leadingBreak, trailingBreak, hown, hindent, Bool.not_false, Bool.and_self,
        Bool.true_or, Bool.true_or, if_pos rfl, ← hvalue]
      exact valueOf_shift_lines h (h.common (by simp)) width

/-! ## Closing quotes -/

/-- Closing quotes behind the escaped text are not taken for a part of it. -/
def IsClosable (text : Text) : Prop :=
  endsWith '\\' text = false ∧ (endsWith '"' text = true → endsInEscapedQuotes text = true)

/-- A text is closable if its last character is neither a backslash nor a quote. -/
theorem isClosable_of_last {c : Char} {text : Text} (h : text.getLast? = some c)
    (hs : c ≠ '\\') (hq : c ≠ '"') : IsClosable text := by
  simp [IsClosable, endsWith, h, hs, hq]

/-- Behind a line end there is nothing or indentation, however far the text is shifted. -/
theorem getLast?_shift_newline (width : Nat) (text : Text) :
    (Text.shift width (text ++ ['\n'])).getLast? = some '\n'
      ∨ (Text.shift width (text ++ ['\n'])).getLast? = some ' ' := by
  rw [Text.shift_append, Text.shift_newline, Text.shift_nil, List.append_nil]
  cases width with
  | zero => left; simp
  | succ width =>
      right
      rw [List.replicate_succ', ← List.cons_append, ← List.append_assoc]
      exact List.getLast?_concat

/-- A value that needs no frame stands on one line. -/
theorem newline_notMem_of_not_onOwnLines (hv : IsValue value) (h : onOwnLines value = false) :
    '\n' ∉ value := by
  obtain ⟨lines, hf, rfl⟩ := hv
  rw [onOwnLines] at h
  simp only [Bool.or_eq_false_iff] at h
  have hlen := of_decide_eq_false h.1.1.1.1
  by_cases hne : lines = []
  · subst hne; exact List.not_mem_nil
  · rw [length_lines_escape hf hne] at hlen
    match lines, hne with
    | [line], _ => simpa [Text.join] using hf.notMem rfl line (List.mem_singleton_self _)
    | _ :: _ :: _, _ => simp at hlen

/-- Closing quotes end a framed value, however far it is shifted. -/
theorem isClosable_shift_framed (hv : IsValue value) (width : Nat) :
    IsClosable (Text.shift width (framed value)) := by
  rw [framed, trailingBreak]
  by_cases htrail : (onOwnLines value || needsTrailingNewline value) = true
  · rw [if_pos htrail, ← List.append_assoc]
    rcases getLast?_shift_newline width (leadingBreak value ++ value) with h | h
    · exact isClosable_of_last h (by decide) (by decide)
    · exact isClosable_of_last h (by decide) (by decide)
  · rw [Bool.not_eq_true, Bool.or_eq_false_iff] at htrail
    obtain ⟨hown, hneeds⟩ := htrail
    have hlead : needsLeadingNewline value = false := by
      rw [onOwnLines] at hown
      simp only [Bool.or_eq_false_iff] at hown
      exact hown.1.2
    have hline : '\n' ∉ value := newline_notMem_of_not_onOwnLines hv hown
    rw [leadingBreak, hown, hlead, hneeds]
    simp only [Bool.false_and, Bool.or_self, Bool.false_eq_true, if_false, List.nil_append,
      List.append_nil]
    rw [Text.shift_eq_self width hline]
    simpa [needsTrailingNewline, IsClosable, and_comm] using hneeds

/-- How three quotes are written. -/
def escapedQuotes : Text := ['\\', '"', '"', '"']

/-- To end in escaped quotes is to end so once written. -/
theorem endsInEscapedQuotes_iff {text : Text} :
    endsInEscapedQuotes text = true ↔ escapedQuotes <:+ escape text :=
  List.isSuffixOf_iff_suffix

/-- A short value without line ends and quotes is printed between the quotes as it stands,
    unless a backslash at its end would escape one of them. -/
theorem print_eq_quoted {value : Text} (hlf : '\n' ∉ value) (hcr : '\r' ∉ value)
    (hquote : '"' ∉ value) (hslash : endsWith '\\' value = false) (hshort : value.length ≤ 70) :
    print value = "\"\"\"" ++ value ++ "\"\"\"" := by
  have hescape : escape value = value := escape_eq_self hquote
  have hline : value.lines.length = 1 := by
    rw [Text.lines_eq_splitOn hcr, Text.length_splitOn, List.count_eq_zero.mpr hlf]
  have hlead : needsLeadingNewline value = false :=
    needsLeadingNewline_of_length (by rw [hescape, hline])
  have hends : endsInEscapedQuotes value = false := by
    rw [← Bool.not_eq_true, endsInEscapedQuotes_iff, hescape]
    exact fun h => hquote (h.subset (by simp [escapedQuotes]))
  have hendsQuote : endsWith '"' value = false := by
    rw [← Bool.not_eq_true, endsWith, decide_eq_true_eq]
    exact fun h => hquote (List.mem_of_getLast? h)
  have htrail : needsTrailingNewline value = false := by
    rw [needsTrailingNewline, hendsQuote, hslash, Bool.false_and, Bool.false_or]
  have hown : onOwnLines value = false := by
    simp [onOwnLines, hescape, hline, hshort, htrail, hlead, hends]
  rw [print, hown, hlead, htrail, hescape]
  simp

-- A vertical tab, a next line and a line separator end no line.
example : print "a\x0bb\u0085c\u2028d" = "\"\"\"a\x0bb\u0085c\u2028d\"\"\"" := by decide
/-- Nothing is written as nothing only. -/
theorem escape_eq_nil {text : Text} (h : escape text = []) : text = [] := by
  induction text using escape.induct with
  | case1 cs => cases h
  | case2 c cs hc =>
      rw [escape_cons hc] at h
      cases h
  | case3 => rfl

/-- A quote opens an escaped text only if it opens the text. -/
theorem quote_of_escape {text rest : Text} (h : escape text = '"' :: rest) :
    ∃ cs, text = '"' :: cs ∧ rest = escape cs := by
  induction text using escape.induct with
  | case1 cs => exact absurd (List.cons.inj h).1 (by decide)
  | case2 c cs hc =>
      rw [escape_cons hc] at h
      obtain ⟨rfl, hrest⟩ := List.cons.inj h
      exact ⟨cs, rfl, hrest.symm⟩
  | case3 => cases h

/-- A quote behind an escaped text is behind the text. -/
theorem quote_of_escape_append {text rest ds : Text} (h : escape text ++ rest = '"' :: ds) :
    text = [] ∨ ∃ cs, text = '"' :: cs ∧ escape cs ++ rest = ds := by
  cases he : escape text with
  | nil => exact .inl (escape_eq_nil he)
  | cons c escaped =>
      rw [he] at h
      rw [(List.cons.inj h).1] at he
      obtain ⟨cs, rfl, rfl⟩ := quote_of_escape he
      exact .inr ⟨cs, rfl, (List.cons.inj h).2⟩

/-- Three quotes do not open an escaped text. -/
theorem escape_ne_quotes (text rest : Text) : escape text ≠ '"' :: '"' :: '"' :: rest := by
  intro h
  obtain ⟨cs, rfl, h1⟩ := quote_of_escape h
  obtain ⟨ds, rfl, h2⟩ := quote_of_escape h1.symm
  obtain ⟨es, rfl, -⟩ := quote_of_escape h2.symm
  exact absurd (List.cons.inj h).1 (by decide)

theorem endsWith_cons {c d : Char} {text : Text} (h : endsWith c text = true) :
    endsWith c (d :: text) = true := by
  match text, h with
  | e :: cs, h => simpa [endsWith, List.getLast?_cons_cons] using h

/-- Written quotes at the end of what goes on with an escaped text are at its own end, or
    are longer than it. -/
theorem suffix_or_mem {first second : Text} (h : escapedQuotes <:+ first ++ second) :
    escapedQuotes <:+ second ∨ second ∈ [[], ['"'], ['"', '"'], ['"', '"', '"']] := by
  rcases Nat.lt_or_ge second.length 4 with hlt | hge
  · have hsuffix : second <:+ escapedQuotes :=
      List.suffix_of_suffix_length_le (List.suffix_append first second) h (Nat.le_of_lt hlt)
    simp only [escapedQuotes, List.suffix_cons_iff, List.suffix_nil] at hsuffix
    rcases hsuffix with rfl | rfl | rfl | rfl | rfl
    · exact absurd hlt (by decide)
    all_goals right; simp
  · exact .inl (List.suffix_of_suffix_length_le h (List.suffix_append first second) hge)

/-- What is closable stays so without its first character, unless that is the first of three
    quotes. -/
theorem IsClosable.of_cons {c : Char} {text : Text}
    (hc : ∀ cs, c = '"' → text = '"' :: '"' :: cs → False) (h : IsClosable (c :: text)) :
    IsClosable text := by
  refine ⟨Bool.eq_false_iff.mpr fun hs => ?_, fun hq => ?_⟩
  · exact Bool.noConfusion (h.1.symm.trans (endsWith_cons hs))
  · have hend := endsInEscapedQuotes_iff.mp (h.2 (endsWith_cons hq))
    rw [escape_cons hc, ← List.singleton_append] at hend
    rcases suffix_or_mem hend with hend | hmem
    · exact endsInEscapedQuotes_iff.mpr hend
    · -- the written quotes would be longer than the text
      have hle := hend.length_le
      simp only [List.mem_cons, List.not_mem_nil, or_false] at hmem
      rcases hmem with hs | hs | hs | hs
      · simp [hs, escapedQuotes] at hle
      · simp [hs, escapedQuotes] at hle
      · simp [hs, escapedQuotes] at hle
      · exact absurd hs (escape_ne_quotes text [])

/-- What is closable stays so without three quotes in front. -/
theorem IsClosable.of_quotes {text : Text} (h : IsClosable ('"' :: '"' :: '"' :: text)) :
    IsClosable text := by
  refine ⟨Bool.eq_false_iff.mpr fun hs => ?_, fun hq => ?_⟩
  · have := endsWith_cons (d := '"') (endsWith_cons (d := '"') (endsWith_cons (d := '"') hs))
    exact Bool.noConfusion (h.1.symm.trans this)
  · have hend := endsInEscapedQuotes_iff.mp
      (h.2 (endsWith_cons (endsWith_cons (endsWith_cons hq))))
    rw [escape, show '\\' :: '"' :: '"' :: '"' :: escape text = escapedQuotes ++ escape text from rfl]
      at hend
    rcases suffix_or_mem hend with hend' | hmem
    · exact endsInEscapedQuotes_iff.mpr hend'
    · simp only [List.mem_cons, List.not_mem_nil, or_false] at hmem
      rcases hmem with hs | hs | hs | hs
      · rw [escape_eq_nil hs] at hq
        cases hq
      · exact absurd (hs ▸ hend) (by decide)
      · exact absurd (hs ▸ hend) (by decide)
      · exact absurd hs (escape_ne_quotes text [])

end SchemaStitch.BlockString

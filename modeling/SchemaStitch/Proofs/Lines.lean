import SchemaStitch.Text

/-! # Lines and indentation

    Splitting at one character is the library's `List.splitOn`, and without carriage
    returns so is cutting into lines.  Indentation puts blanks behind every line end; it
    keeps the lines and widens all but the first of them (`splitOn_shift`). -/

namespace SchemaStitch.Text

variable {text : Text}

/-! ## Splitting -/

/-- Splitting is the library's splitting. -/
theorem split_eq_splitOn (separator : Char) (text : Text) :
    split separator text = text.splitOn separator := by
  induction text with
  | nil => rfl
  | cons c cs ih =>
      rw [split, ih, List.splitOn_cons_eq_if_modifyHead]
      have hne := List.splitOn_ne_nil separator cs
      by_cases hc : c = separator
      · simp [hc]
      · simp only [hc, if_false, beq_iff_eq]
        cases hs : cs.splitOn separator with
        | nil => exact absurd hs hne
        | cons piece rest => rfl

/-- There is always a piece. -/
theorem pieces_ne_nil (ends : Char → Bool) (text : Text) : pieces ends text ≠ [] := by
  fun_cases pieces ends text <;> simp_all

/-- No piece holds a character that ends one. -/
theorem not_ends_of_mem_pieces {ends : Char → Bool} {piece : Text}
    (hp : piece ∈ pieces ends text) : ∀ c ∈ piece, ends c = false := by
  induction text using pieces.induct ends generalizing piece with
  | case1 =>
      simp only [pieces, List.mem_singleton] at hp
      simp [hp]
  | case2 cs ih =>
      rw [pieces] at hp
      rcases List.mem_cons.mp hp with rfl | hp
      · simp
      · exact ih hp
  | case3 c cs hcr hc ih =>
      rw [pieces.eq_3 _ _ _ hcr, if_pos hc] at hp
      rcases List.mem_cons.mp hp with rfl | hp
      · simp
      · exact ih hp
  | case4 c cs hcr hc hcs ih => exact absurd hcs (pieces_ne_nil ends cs)
  -- a character that ends no line joins the first piece of the rest
  | case5 c cs hcr hc first rest hcs ih =>
      rw [pieces.eq_3 _ _ _ hcr, if_neg hc, hcs] at hp
      rw [hcs] at ih
      rcases List.mem_cons.mp hp with rfl | hp
      · intro d hd
        rcases List.mem_cons.mp hd with rfl | hd
        · exact Bool.eq_false_iff.mpr hc
        · exact ih (List.mem_cons_self ..) d hd
      · exact ih (List.mem_cons_of_mem _ hp)

/-- No line holds a line end. -/
theorem not_newline_of_mem_lines {line : Text} (hl : line ∈ text.lines) :
    ∀ c ∈ line, isNewline c = false :=
  not_ends_of_mem_pieces hl

theorem lines_ne_nil (text : Text) : text.lines ≠ [] :=
  pieces_ne_nil isNewline text

/-- Without carriage returns, lines are what stands between line feeds. -/
theorem lines_eq_splitOn (h : '\r' ∉ text) : text.lines = text.splitOn '\n' := by
  rw [← split_eq_splitOn]
  induction text with
  | nil => rfl
  | cons c cs ih =>
      rw [List.mem_cons, not_or] at h
      obtain ⟨hc, hcs⟩ := h
      have hcr : ∀ ds, c = '\r' → cs = '\n' :: ds → False := fun _ hr _ => hc hr.symm
      have hend : isNewline c = true ↔ c = '\n' := by
        simp [isNewline, Ne.symm hc]
      rw [lines, pieces.eq_3 _ _ _ hcr, split, ← ih hcs]
      simp only [hend]
      rfl

/-- The number of pieces counts the separators. -/
theorem length_splitOn (separator : Char) (text : Text) :
    (text.splitOn separator).length = text.count separator + 1 := by
  induction text with
  | nil => rfl
  | cons c cs ih =>
      rw [List.splitOn_cons_eq_if_modifyHead]
      by_cases hc : c = separator
      · simp [hc, ih]
      · simp [hc, ih]

/-- Characters that do not separate go to the first piece. -/
theorem splitOn_append_of_notMem {separator : Char} {first : Text} (h : separator ∉ first)
    (second : Text) :
    (first ++ second).splitOn separator
      = (second.splitOn separator).modifyHead (first ++ ·) := by
  obtain ⟨piece, rest, hp⟩ := List.exists_cons_of_ne_nil (List.splitOn_ne_nil separator second)
  induction first with
  | nil => simp [hp]
  | cons c cs ih =>
      rw [List.mem_cons, not_or] at h
      obtain ⟨hc, hcs⟩ := h
      rw [List.cons_append, List.splitOn_cons_eq_if_modifyHead, ih hcs, hp]
      simp [Ne.symm hc]

/-- What stands in joined parts stands in a part or in the separator. -/
theorem mem_of_mem_join {separator : Text} {parts : List Text} {c : Char}
    (hc : c ∈ join separator parts) : c ∈ separator ∨ ∃ part ∈ parts, c ∈ part := by
  induction parts with
  | nil => cases hc
  | cons part rest ih =>
      cases rest with
      | nil => exact .inr ⟨part, List.mem_singleton_self _, by simpa [join] using hc⟩
      | cons next others =>
          rw [join, List.intercalate_cons_cons, List.mem_append, List.mem_append] at hc
          rcases hc with (hc | hc) | hc
          · exact .inr ⟨part, List.mem_cons_self .., hc⟩
          · exact .inl hc
          · rcases ih hc with hs | ⟨other, ho, hc⟩
            · exact .inl hs
            · exact .inr ⟨other, List.mem_cons_of_mem _ ho, hc⟩

/-! ## Indentation -/

/-- `width` blanks behind every line end. -/
def shift (width : Nat) (text : Text) : Text :=
  text.flatMap fun c => if c = '\n' then '\n' :: List.replicate width ' ' else [c]

@[simp] theorem shift_nil (width : Nat) : shift width [] = [] := rfl

@[simp] theorem shift_newline (width : Nat) (text : Text) :
    shift width ('\n' :: text) = '\n' :: (List.replicate width ' ' ++ shift width text) := rfl

theorem shift_cons {c : Char} (hc : c ≠ '\n') (width : Nat) (text : Text) :
    shift width (c :: text) = c :: shift width text := by
  simp [shift, hc]

@[simp] theorem shift_append (width : Nat) (first second : Text) :
    shift width (first ++ second) = shift width first ++ shift width second :=
  List.flatMap_append

/-- A text on one line has no line end to put blanks behind. -/
theorem shift_eq_self (width : Nat) (h : '\n' ∉ text) : shift width text = text := by
  induction text with
  | nil => rfl
  | cons c cs ih =>
      rw [List.mem_cons, not_or] at h
      obtain ⟨hc, hcs⟩ := h
      rw [shift_cons (Ne.symm hc), ih hcs]

/-- Shifting brings in blanks only. -/
theorem mem_shift {c : Char} (hc : c ≠ ' ') (width : Nat) (text : Text) :
    c ∈ shift width text ↔ c ∈ text := by
  induction text with
  | nil => rfl
  | cons d ds ih =>
      by_cases hd : d = '\n'
      · subst hd
        simp [ih, hc]
      · simp [shift_cons hd, ih]

/-- Shifting twice adds the widths. -/
theorem shift_shift (v w : Nat) (text : Text) : shift v (shift w text) = shift (v + w) text := by
  induction text with
  | nil => rfl
  | cons c cs ih =>
      by_cases hc : c = '\n'
      · subst hc
        have hblanks : '\n' ∉ List.replicate w ' ' := by simp
        rw [shift_newline, shift_newline, shift_append, shift_eq_self v hblanks, ih, shift_newline,
          ← List.append_assoc, List.replicate_append_replicate]
      · rw [shift_cons hc, shift_cons hc, shift_cons hc, ih]

@[simp] theorem shift_zero (text : Text) : shift 0 text = text := by
  induction text with
  | nil => rfl
  | cons c cs ih =>
      by_cases hc : c = '\n'
      · rw [hc, shift_newline, ih]; rfl
      · rw [shift_cons hc, ih]

/-- Indenting the lines behind the first one shifts by two. -/
theorem indentTail_eq_shift (text : Text) : indentTail text = shift 2 text := by
  induction text with
  | nil => rfl
  | cons c cs ih =>
      rw [indentTail]
      by_cases hc : c = '\n'
      · rw [if_pos hc, hc, shift_newline, ih]; rfl
      · rw [if_neg hc, shift_cons hc, ih]

/-- Shifting widens every line but the first. -/
theorem splitOn_shift {line : Text} {rest : List Text} (width : Nat)
    (h : text.splitOn '\n' = line :: rest) :
    (shift width text).splitOn '\n' = line :: rest.map (List.replicate width ' ' ++ ·) := by
  induction text generalizing line rest with
  | nil =>
      simp only [List.splitOn_nil, List.cons.injEq] at h
      obtain ⟨rfl, rfl⟩ := h
      rfl
  | cons c cs ih =>
      -- a line end puts the first line behind it among those that are widened
      obtain ⟨next, others, hcs⟩ := List.exists_cons_of_ne_nil (List.splitOn_ne_nil '\n' cs)
      rw [List.splitOn_cons_eq_if_modifyHead, hcs] at h
      by_cases hc : c = '\n'
      · subst hc
        simp only [beq_self_eq_true, if_true, List.cons.injEq] at h
        obtain ⟨rfl, rfl⟩ := h
        rw [shift_newline, List.splitOn_cons_eq_if_modifyHead]
        simp only [beq_self_eq_true, if_true, List.map_cons]
        rw [splitOn_append_of_notMem (by simp), ih hcs]
        rfl
      · simp only [beq_iff_eq, hc, if_false, List.modifyHead_cons, List.cons.injEq] at h
        obtain ⟨rfl, rfl⟩ := h
        rw [shift_cons hc, List.splitOn_cons_eq_if_modifyHead, ih hcs]
        simp [hc]

end SchemaStitch.Text

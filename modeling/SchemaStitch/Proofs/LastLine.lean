import SchemaStitch.Proofs.Printed
import SchemaStitch.Proofs.RoundTrip

/-! # The last line

    Whatever is printed ends within a line: behind its last definition there is no line end
    (`Stitched.Readable.endsInLine_print`).  Only the last part of a definition matters for
    that, and it is a name, a closing parenthesis or a closing brace. -/

namespace SchemaStitch

/-! ## Texts -/

namespace Text

variable {first second : Text} {parts : List Text}

/-- A text that is not empty and has no line end behind its last line. -/
def EndsInLine (text : Text) : Prop :=
  ∃ front c, text = front ++ [c] ∧ c ≠ '\n'

theorem EndsInLine.ne_nil (h : first.EndsInLine) : first ≠ [] := by
  obtain ⟨front, c, rfl, -⟩ := h
  simp

theorem EndsInLine.getLast? (h : first.EndsInLine) : first.getLast? ≠ some '\n' := by
  obtain ⟨front, c, rfl, hc⟩ := h
  rw [List.getLast?_concat]
  exact fun heq => hc (Option.some.inj heq)

theorem endsInLine_of_notMem (hne : first ≠ []) (h : '\n' ∉ first) : first.EndsInLine := by
  refine ⟨first.dropLast, first.getLast hne, (List.dropLast_append_getLast hne).symm, ?_⟩
  exact fun heq => h (heq ▸ List.getLast_mem hne)

theorem endsInLine_name (h : isName first = true) : first.EndsInLine := by
  obtain ⟨c, cs, rfl, -, -⟩ := Lexer.exists_cons_of_isName h
  exact endsInLine_of_notMem (List.cons_ne_nil _ _) (Lexer.newline_notMem_of_isName h)

/-- What is put in front does not change how a text ends. -/
theorem EndsInLine.append (h : second.EndsInLine) (first : Text) :
    (first ++ second).EndsInLine := by
  obtain ⟨front, c, rfl, hc⟩ := h
  exact ⟨first ++ front, c, (List.append_assoc ..).symm, hc⟩

/-- A part that may be missing does no harm. -/
theorem EndsInLine.append_optional (h : first.EndsInLine) (hs : second = [] ∨ second.EndsInLine) :
    (first ++ second).EndsInLine := by
  rcases hs with rfl | hs
  · rw [List.append_nil]
    exact h
  · exact hs.append first

/-- Joined parts end as the last of them. -/
theorem endsInLine_join (separator : Text) (hne : parts ≠ [])
    (h : ∀ part ∈ parts, part.EndsInLine) :
    (join separator parts).EndsInLine := by
  induction parts with
  | nil => exact absurd rfl hne
  | cons part rest ih =>
      cases rest with
      | nil =>
          rw [join, List.intercalate_singleton]
          exact h part (List.mem_cons_self ..)
      | cons next others =>
          rw [join_cons (List.cons_ne_nil _ _)]
          have hrest := ih (List.cons_ne_nil _ _) fun other hother =>
            h other (List.mem_cons_of_mem _ hother)
          exact (hrest.append separator).append part

/-- Of parts that may be missing, one that is there decides. -/
theorem endsInLine_joinPresent (separator : Text) {part : Text} (hp : part ∈ parts)
    (hpart : part.EndsInLine) (h : ∀ other ∈ parts, other = [] ∨ other.EndsInLine) :
    (joinPresent separator parts).EndsInLine := by
  have hpresent : part ∈ parts.filter fun part => !part.isEmpty := by
    refine List.mem_filter.mpr ⟨hp, ?_⟩
    rw [Bool.not_eq_true', List.isEmpty_eq_false_iff]
    exact hpart.ne_nil
  refine endsInLine_join separator (List.ne_nil_of_mem hpresent) fun other hother => ?_
  obtain ⟨hmem, hfull⟩ := List.mem_filter.mp hother
  refine (h other hmem).resolve_left fun hnil => ?_
  rw [hnil] at hfull
  cases hfull

/-- Words behind a name end in a line if each of them does or is left out. -/
theorem endsInLine_words {word : Text} (hw : isName word = true)
    (h : ∀ part ∈ parts, part = [] ∨ part.EndsInLine) :
    (joinPresent " " (word :: parts)).EndsInLine := by
  have hword := endsInLine_name hw
  refine endsInLine_joinPresent " " (List.mem_cons_self ..) hword ?_
  exact List.forall_mem_cons.mpr ⟨.inr hword, h⟩

/-- An enclosed part is left out or ends as what encloses it. -/
theorem enclose_optional {before after : Text} (ha : after.EndsInLine) (part : Text) :
    enclose before part after = [] ∨ (enclose before part after).EndsInLine := by
  rw [enclose]
  split
  · exact .inl rfl
  · exact .inr (ha.append _)

/-- Names behind an opening are left out or end in a line. -/
theorem enclose_names {before separator : Text} {names : List Text}
    (h : ∀ name ∈ names, isName name = true) :
    enclose before (join separator names) [] = []
      ∨ (enclose before (join separator names) []).EndsInLine := by
  rw [enclose]
  split
  · exact .inl rfl
  · next hfull =>
      have hne : names ≠ [] := by
        rintro rfl
        exact hfull rfl
      rw [List.append_nil]
      refine .inr (EndsInLine.append ?_ _)
      exact endsInLine_join separator hne fun name hn => endsInLine_name (h name hn)

end Text

open Text

/-! ## Definitions -/

/-- A block is left out or ends in its closing brace. -/
theorem printBlock_optional (items : List Text) :
    printBlock items = [] ∨ (printBlock items).EndsInLine := by
  rw [printBlock]
  split
  · exact .inl rfl
  · exact .inr (EndsInLine.append ⟨['\n'], '}', rfl, by decide⟩ _)

theorem endsInLine_printBlock {items : List Text} (hne : items ≠ []) :
    (printBlock items).EndsInLine := by
  refine (printBlock_optional items).resolve_left ?_
  rw [printBlock, if_neg (by simpa using hne)]
  simp

/-- Directives are left out or end in a line. -/
theorem printDirectives_optional {constant : Bool} {depth : Nat} {directives : List Directive}
    (h : ∀ directive ∈ directives, directive.WellFormed constant depth) :
    printDirectives directives = [] ∨ (printDirectives directives).EndsInLine := by
  cases directives with
  | nil => exact .inl rfl
  | cons directive rest =>
      refine .inr (endsInLine_join _ (by simp) fun part hpart => ?_)
      obtain ⟨d, hd, rfl⟩ := List.mem_map.mp hpart
      have hname : EndsInLine ("@" ++ d.name) := (endsInLine_name (h d hd).name).append _
      exact hname.append_optional (enclose_optional ⟨[], ')', rfl, by decide⟩ _)

/-- Each part of a type's header is left out or ends in a line. -/
theorem Block.WellFormed.endsInLine_header {block : Block} (h : block.WellFormed) :
    ∀ part ∈ block.header, part = [] ∨ part.EndsInLine := by
  intro part hpart
  simp only [Block.header, List.mem_cons, List.not_mem_nil, or_false] at hpart
  rcases hpart with rfl | rfl | rfl | rfl
  · exact .inr (endsInLine_name (isName_keyword _))
  · exact .inr (endsInLine_name h.name)
  · exact enclose_names h.interfaces
  · exact printDirectives_optional h.directives

/-- A printed type ends in a line, with its members and without. -/
theorem Block.WellFormed.endsInLine_print {block : Block} (h : block.WellFormed) :
    block.printWithComments.EndsInLine ∧ block.printBare.EndsInLine := by
  have hkeyword := endsInLine_name (isName_keyword block.kind)
  constructor
  · have hheader := endsInLine_joinPresent " " (List.mem_cons_self ..) hkeyword h.endsInLine_header
    rw [Block.printWithComments_eq]
    refine (hheader.append_optional ?_).append _
    rw [Entry.printBody]
    split
    · exact .inl rfl
    · exact .inr (EndsInLine.append ⟨['\n'], '}', rfl, by decide⟩ _)
  · refine endsInLine_joinPresent " " (List.mem_append_left _ (List.mem_cons_self ..)) hkeyword ?_
    intro part hpart
    rcases List.mem_append.mp hpart with hpart | hpart
    · exact h.endsInLine_header part hpart
    · rw [List.mem_singleton.mp hpart]
      exact printBlock_optional _

theorem TypeDefinition.WellFormed.endsInLine_printBare {type : TypeDefinition}
    (h : type.WellFormed) : type.printBare.EndsInLine := by
  cases type with
  | scalar s =>
      have hs : s.WellFormed := h
      refine endsInLine_words rfl (List.forall_mem_cons.mpr ⟨?_, List.forall_mem_singleton.mpr ?_⟩)
      · exact .inr (endsInLine_name hs.name)
      · exact printDirectives_optional hs.directives
  | block b => exact (Block.WellFormed.endsInLine_print h).2
  | union u =>
      have hu : u.WellFormed := h
      refine endsInLine_words rfl (List.forall_mem_cons.mpr ⟨?_, ?_⟩)
      · exact .inr (endsInLine_name hu.name)
      · refine List.forall_mem_cons.mpr ⟨?_, List.forall_mem_singleton.mpr ?_⟩
        · exact printDirectives_optional hu.directives
        · exact enclose_names hu.types

theorem SchemaBlock.WellFormed.endsInLine_printBare {schema : SchemaBlock} (h : schema.WellFormed) :
    schema.printBare.EndsInLine := by
  refine endsInLine_words rfl (List.forall_mem_cons.mpr ⟨?_, List.forall_mem_singleton.mpr ?_⟩)
  · exact printDirectives_optional h.directives
  · exact printBlock_optional _

/-- Selections end in their closing brace. -/
theorem endsInLine_selections {depth : Nat} {selections : List Selection}
    (h : Selection.SetWellFormed depth selections) :
    (printBlock (Selection.printAll selections)).EndsInLine := by
  refine endsInLine_printBlock ?_
  obtain ⟨selection, rest, rfl⟩ := List.exists_cons_of_ne_nil h.nonempty
  exact List.cons_ne_nil _ _

/-- A definition ends with a name, a parenthesis or a brace. -/
theorem Definition.WellFormed.endsInLine_print {d : Definition} (h : d.WellFormed) :
    d.printWithComments.EndsInLine := by
  cases d with
  | schema s => exact h.1.endsInLine_printBare.append _
  | type t =>
      have ht : t.WellFormed := h
      cases t with
      | block b => exact (Block.WellFormed.endsInLine_print h).1
      | _ => exact ht.endsInLine_printBare.append _
  | directive d =>
      have hd : d.WellFormed := h
      refine (endsInLine_join " | " (by simpa using hd.locations) ?_).append _
      intro part hpart
      obtain ⟨location, -, rfl⟩ := List.mem_map.mp hpart
      exact endsInLine_name (isName_location location)
  | extendSchema s => exact h.1.endsInLine_printBare.append _
  | extendType t => exact (TypeDefinition.WellFormed.endsInLine_printBare h.1).append _
  | operation o => exact (endsInLine_selections (Operation.WellFormed.selections h)).append _
  | fragment f => exact (endsInLine_selections (Fragment.WellFormed.selections h)).append _

/-! ## Sequences -/

/-- Comments stand in front of something, so the last definition decides. -/
theorem endsInLine_printEntries {entries : List (Entry Definition)} (h : Entry.Attached entries)
    (hne : entries ≠ []) (hw : ∀ d ∈ Entry.nodes entries, d.WellFormed) :
    (printEntries entries).EndsInLine := by
  induction h with
  | nil => exact absurd rfl hne
  | @node d rest _ ih =>
      obtain ⟨hd, hrest⟩ := List.forall_mem_cons.mp hw
      show (d.printWithComments ++ printEntriesAfter "\n\n" rest).EndsInLine
      refine hd.endsInLine_print.append_optional ?_
      cases rest with
      | nil => exact .inl rfl
      | cons entry others =>
          rw [printEntriesAfter_eq _ (List.cons_ne_nil _ _)]
          exact .inr ((ih (List.cons_ne_nil _ _) hrest).append _)
  | @comment line rest _ hbehind _ ih =>
      show (printComment line ++ printEntriesAfter "\n" rest).EndsInLine
      rw [printEntriesAfter_eq _ hbehind]
      exact ((ih hbehind hw).append _).append _

/-- The text of a result ends within a line. -/
theorem Stitched.Readable.endsInLine_print {s : Stitched} (h : s.Readable) :
    s.print.EndsInLine := by
  rw [Stitched.print_eq_printEntries h.attached h.passing]
  have hrest : Entry.Attached (Entry.commented s.rest) := by
    rw [h.passing]
    exact Entry.attached_commented (Entry.attached_map_node _)
  refine endsInLine_printEntries (.node _ (h.attached.append hrest)) (List.cons_ne_nil _ _) ?_
  intro d hd
  rw [Stitched.printed, Entry.nodes_node, Entry.nodes_append, Entry.nodes_commented] at hd
  rcases List.mem_cons.mp hd with rfl | hd
  · exact h.schema
  · rcases List.mem_append.mp hd with hd | hd
    · obtain ⟨hsettled, hnone⟩ := h.merged d hd
      rw [← hnone]
      exact hsettled.wellFormed
    · obtain ⟨original, horiginal, rfl⟩ := List.mem_map.mp hd
      exact (h.rest original horiginal).wellFormed

end SchemaStitch

import SchemaStitch.Proofs.Conservation
import SchemaStitch.Proofs.NumberSigns
import SchemaStitch.Proofs.PlainPrinting
import SchemaStitch.Proofs.Repeats

/-! # Comment lines in print

    Comment lines may be put in front of definitions and members, between them and behind the last
    one.  Printed, each of them is read as one comment, in the order in which they stand, and the
    tokens are those of the same definitions without comment lines
    (`Entry.printEntries_withoutComments`).

    A part of a text is followed by what stands behind it: it is read as tokens and comments, and
    then the rest is read (`Carries`).  A line with a comment needs a line end behind it, or the end
    of the text (`Text.EndsLine`).  That the print of a definition or member holds no comment of its
    own is seen by counting: a comment would bring in a number sign that no token has. -/

namespace SchemaStitch

open Lexer

/-! ## Reading comments -/

/-- A text that starts with a line end, or with nothing. -/
def Text.EndsLine (text : Text) : Prop :=
  ∀ c ∈ text.head?, c = '\n'

namespace Text.EndsLine

variable {text : Text}

theorem nil : EndsLine [] := by
  intro c hc
  cases hc

/-- A text that starts with a line end ends the line before it. -/
theorem cons (text : Text) : EndsLine ('\n' :: text) := by
  intro c hc
  exact (Option.some.inj hc).symm

/-- A line end cannot run into the token before it. -/
theorem isBounded (h : text.EndsLine) : IsBounded text := by
  intro c hc
  rw [h c hc]
  rfl

end Text.EndsLine

namespace Lexer

/-- The comments of a text, with their number signs.  The walk is the one that finds the lexemes;
    the first argument counts the characters that are still to be passed over. -/
def commentsFrom : Nat → Text → List Text
  | _, [] => []
  | skip + 1, _ :: rest => commentsFrom skip rest
  | 0, c :: rest =>
      if isIgnored c then commentsFrom 0 rest
      else if c = '#' then
        (c :: commentBody rest) :: commentsFrom (commentBody rest).length rest
      else match readToken (c :: rest) with
        | .error _ => []
        | .ok (_, size) => commentsFrom (size - 1) rest

/-- The comments that are read in a text. -/
def comments (text : Text) : List Text :=
  commentsFrom 0 text

/-- Characters that were passed over hold no comment of their own. -/
theorem commentsFrom_append (passed rest : Text) :
    commentsFrom passed.length (passed ++ rest) = comments rest := by
  induction passed with
  | nil => rfl
  | cons c cs ih => exact ih

/-- An ignored character opens no comment. -/
theorem comments_ignored {c : Char} (hc : isIgnored c = true) (text : Text) :
    comments (c :: text) = comments text := by
  rw [comments, commentsFrom, if_pos hc]
  rfl

/-- A token holds no comment, whatever number signs are in it. -/
theorem comments_token {token : Token} {text rest : Text} {c : Char} (hhead : text.head? = some c)
    (hi : isIgnored c = false) (hc : c ≠ '#')
    (h : readToken (text ++ rest) = .ok (token, text.length)) :
    comments (text ++ rest) = comments rest := by
  match text, hhead with
  | _ :: cs, rfl =>
      rw [List.cons_append] at h ⊢
      rw [comments, commentsFrom, if_neg (by simp [hi]), if_neg hc, h]
      exact commentsFrom_append cs rest

/-- A comment goes up to the line end. -/
theorem commentBody_append {body rest : Text} (hb : ∀ c ∈ body, Text.isNewline c = false)
    (he : rest.EndsLine) : commentBody (body ++ rest) = body := by
  rw [commentBody, List.takeWhile_append_of_pos (by simpa using hb)]
  cases rest with
  | nil => exact List.append_nil body
  | cons c after =>
      rw [he c rfl, List.takeWhile_cons_of_neg (by decide)]
      exact List.append_nil body

end Lexer

/-- The part of a text before the rest is read as tokens and comments. -/
structure Carries (part : Text) (tokens : List Token) (remarks : List Text) (rest : Text) :
    Prop where
  scan : scan (part ++ rest) = tokens.map .ok ++ scan rest
  comments : comments (part ++ rest) = remarks ++ comments rest

namespace Carries

variable {first second part rest : Text} {tokens more : List Token} {remarks others : List Text}

theorem nil : Carries [] [] [] rest where
  scan := rfl
  comments := rfl

/-- What one part and then another carry, both carry together. -/
theorem append (h1 : Carries first tokens remarks (second ++ rest))
    (h2 : Carries second more others rest) :
    Carries (first ++ second) (tokens ++ more) (remarks ++ others) rest where
  scan := by rw [List.append_assoc, h1.scan, h2.scan, List.map_append, List.append_assoc]
  comments := by rw [List.append_assoc, h1.comments, h2.comments, List.append_assoc]

/-- Ignored characters carry nothing. -/
theorem ignored (h : part.all isIgnored = true) : Carries part [] [] rest := by
  induction part with
  | nil => exact .nil
  | cons c cs ih =>
      rw [List.all_cons, Bool.and_eq_true] at h
      obtain ⟨hscan, hcomments⟩ := ih h.2
      constructor
      · rw [List.cons_append, scan_ignored h.1, hscan]
      · rw [List.cons_append, comments_ignored h.1, hcomments]

/-- A comment line is read as one comment, and as no token. -/
theorem remark {line : Text} (hl : ∀ c ∈ line, Text.isNewline c = false) (he : rest.EndsLine) :
    Carries (printComment line) [] [printComment line] rest := by
  obtain ⟨body, hbody, hline⟩ := printComment_eq hl
  have hread := commentBody_append hline he
  rw [hbody]
  constructor
  · rw [List.cons_append, Lexer.scan, lexemes, lexemesFrom, if_neg (by decide), if_pos rfl, hread,
      lexemesFrom_append, map_token_lexemesFrom_eq_scan]
    rfl
  · rw [List.cons_append, Lexer.comments, commentsFrom, if_neg (by decide), if_pos rfl, hread,
      commentsFrom_append]
    rfl

end Carries

/-! ## Print without comments -/

/-- A token is written with the number signs of its value. -/
theorem Token.Written.signs {token : Token} {text : Text} (h : token.Written text) :
    text.signs = token.signs := by
  cases h with
  | punctuator p => cases p <;> rfl
  | name _ => rfl
  | int _ _ => rfl
  | float _ _ => rfl
  | string value => exact signs_printString value
  | @blockString value _ width =>
      have hquote : '"' ≠ '#' := by decide
      rw [Text.signs_cons_of_ne hquote, Text.signs_cons_of_ne hquote, Text.signs_cons_of_ne hquote,
        Text.signs_append, Text.signs_shift, BlockString.signs_escape_framed]
      rfl

namespace Text

/-- An ignored character is no number sign. -/
theorem signs_cons_of_ignored {c : Char} (hc : isIgnored c = true) (text : Text) :
    signs (c :: text) = text.signs := by
  refine signs_cons_of_ne ?_ text
  rintro rfl
  exact absurd hc (by decide)

/-- A comment brings in its own number sign. -/
theorem signs_comment (body text : Text) :
    signs ('#' :: (body ++ '\n' :: text)) = 1 + (body.signs + text.signs) := by
  show signs (['#'] ++ (body ++ (['\n'] ++ text))) = 1 + (body.signs + text.signs)
  rw [signs_append, signs_append, signs_append]
  show 1 + (body.signs + (0 + text.signs)) = _
  rw [Nat.zero_add]

end Text

namespace Spells

variable {text : Text} {tokens : List Token}

/-- The number signs of the tokens are in a text that spells them. -/
theorem signsOf_le (h : Spells text tokens) : signsOf tokens ≤ text.signs := by
  induction h with
  | nil => exact Nat.le_refl 0
  | @ignored c text tokens hc _ ih =>
      rw [Text.signs_cons_of_ignored hc]
      exact ih
  | @comment body text tokens _ _ ih =>
      rw [Text.signs_comment]
      omega
  | @token token written text tokens hw _ _ ih =>
      rw [signsOf_cons, Text.signs_append, hw.signs]
      exact Nat.add_le_add_left ih _

/-- If a text has no number signs but those of its tokens, no comment is read in it. -/
theorem comments_append (h : Spells text tokens) (hs : text.signs = signsOf tokens) {rest : Text}
    (hb : IsBounded rest) : comments (text ++ rest) = comments rest := by
  -- whatever the text starts with, the counts stay equal behind it
  induction h with
  | nil => rfl
  | @ignored c text tokens hc _ ih =>
      rw [Text.signs_cons_of_ignored hc] at hs
      rw [List.cons_append, comments_ignored hc, ih hs]
  | @comment body text tokens _ h _ =>
      -- only a comment would bring in one sign too many
      have hle := h.signsOf_le
      rw [Text.signs_comment] at hs
      omega
  | @token token written text tokens hw hbound _ ih =>
      obtain ⟨c, hhead, hi, hc⟩ := hw.head
      have hread := hw.readToken fun he => (hbound he).append hb
      rw [Text.signs_append, signsOf_cons, hw.signs] at hs
      rw [List.append_assoc, comments_token hhead hi hc hread, ih (Nat.add_left_cancel hs)]

end Spells

/-- A text that spells tokens with their number signs only carries no comments. -/
theorem Carries.plain {part rest : Text} {tokens : List Token} (h : Spells part tokens)
    (hs : part.signs = signsOf tokens) (hb : IsBounded rest) : Carries part tokens [] rest where
  scan := h.scan_append hb
  comments := h.comments_append hs hb

/-- A description carries its token and no comment, even with number signs in it. -/
theorem carries_description {description : Option StringLiteral} {rest : Text}
    (h : ∀ literal ∈ description, literal.WellFormed) :
    Carries (printDescription description) (descriptionTokens description) [] rest := by
  cases description with
  | none => exact .nil
  | some literal =>
      have hline : Carries "\n" [] [] rest := .ignored rfl
      have hsigns : literal.print.signs = signsOf [literal.token] := literal.signs_print
      exact (Carries.plain (h literal rfl).written.spells hsigns
        (Text.EndsLine.cons rest).isBounded).append hline

/-! ## Members -/

namespace Entry

/-- The line of an entry that is a comment. -/
def line? {α : Type} : Entry α → Option Text
  | .comment line => some line
  | .node _ => none

/-- The comment lines among entries. -/
def remarks {α : Type} (entries : List (Entry α)) : List Text :=
  entries.filterMap line?

theorem remarks_map_node {α : Type} (values : List α) : remarks (values.map node) = [] := by
  induction values with
  | nil => rfl
  | cons value rest ih => exact ih

end Entry

/-- A part on a line of its own, before others. -/
theorem Carries.line {part rest : Text} {parts : List Text} {tokens more : List Token}
    {remarks others : List Text}
    (h : ∀ {rest : Text}, rest.EndsLine → Carries part tokens remarks rest) (he : rest.EndsLine)
    (hs : Carries (Text.join "\n" parts) more others rest) :
    Carries (Text.join "\n" (part :: parts)) (tokens ++ more) (remarks ++ others) rest := by
  cases parts with
  | nil =>
      -- no line end stands behind the last line
      have hpart : Carries part tokens remarks ([] ++ rest) := h he
      have hone := hpart.append hs
      rw [List.append_nil] at hone
      rw [Text.join, List.intercalate_singleton]
      exact hone
  | cons next behind =>
      have hline : Carries "\n" [] [] (Text.join "\n" (next :: behind) ++ rest) := .ignored rfl
      rw [Text.join_cons (List.cons_ne_nil _ _)]
      exact (h (.cons _)).append (hline.append hs)

/-- An indented member carries its tokens and no comment. -/
theorem Member.WellFormed.carries {kind : BlockKind} {member : Member} {rest : Text}
    (h : member.WellFormed kind) (he : rest.EndsLine) :
    Carries member.print.indent member.tokens [] rest :=
  .plain h.spells.indent ((Text.signs_indent _).trans member.signs_print) he.isBounded

/-- Members and comment lines, each of them indented on lines of its own. -/
theorem Entry.carries_lines {kind : BlockKind} {entries : List (Entry Member)} {rest : Text}
    (h : ∀ member ∈ nodes entries, member.WellFormed kind)
    (hl : ∀ line ∈ remarks entries, ∀ c ∈ line, Text.isNewline c = false) (he : rest.EndsLine) :
    Carries (Text.join "\n" (entries.map fun entry => entry.printMember.indent))
      ((nodes entries).flatMap Member.tokens) ((remarks entries).map printComment) rest := by
  induction entries with
  | nil => exact .nil
  | cons entry others ih =>
      cases entry with
      | node member =>
          have hmember := h member (List.mem_cons_self ..)
          have hothers := ih (fun other ho => h other (List.mem_cons_of_mem _ ho)) hl
          exact Carries.line (fun he => hmember.carries he) he hothers
      | comment line =>
          have hline := hl line (List.mem_cons_self ..)
          have hothers := ih h fun other ho => hl other (List.mem_cons_of_mem _ ho)
          -- the indent is ignored, and the comment itself is the whole line
          have hblanks {rest : Text} (he : rest.EndsLine) :
              Carries (printComment line).indent [] [printComment line] rest := by
            have hindent : Carries "  " [] [] (printComment line ++ rest) := .ignored rfl
            rw [indent_printComment hline]
            exact hindent.append (.remark hline he)
          exact Carries.line hblanks he hothers

/-- The body of a type that is empty or has members. -/
theorem Entry.carries_body {kind : BlockKind} {entries : List (Entry Member)} {rest : Text}
    (h : ∀ member ∈ nodes entries, member.WellFormed kind)
    (hne : entries ≠ [] → nodes entries ≠ [])
    (hl : ∀ line ∈ remarks entries, ∀ c ∈ line, Text.isNewline c = false) (he : rest.EndsLine) :
    Carries (printBody entries)
      (encloseTokens .openBrace .closeBrace ((nodes entries).map Member.tokens))
      ((remarks entries).map printComment) rest := by
  by_cases hnil : entries = []
  · rw [hnil]
    exact .nil
  · have hopen {rest : Text} (he : rest.EndsLine) :
        Carries r" {" [.punctuator .openBrace] [] rest :=
      .plain (.ignored rfl (Leads.punctuator .openBrace).spells) rfl he.isBounded
    have hclose : Carries r"}" [.punctuator .closeBrace] [] rest :=
      .plain (Leads.punctuator .closeBrace).spells rfl he.isBounded
    have hline {rest : Text} : Carries "\n" [] [] rest := .ignored rfl
    have hlines := carries_lines h hl (Text.EndsLine.cons (r"}" ++ rest))
    -- brace, line end, members, line end, brace
    have hall := (hopen (.cons _)).append (hline.append (hlines.append (hline.append hclose)))
    have hnodes : ((nodes entries).map Member.tokens).isEmpty = false := by
      rw [List.isEmpty_eq_false_iff, ne_eq, List.map_eq_nil_iff]
      exact hne hnil
    rw [printBody, if_neg (by simpa using hnil), encloseTokens, if_neg (by simp [hnodes])]
    simpa [List.flatMap_def] using hall

/-! ## Definitions -/

namespace Definition

/-- The comment lines among the members of a definition. -/
def remarks (d : Definition) : List Text :=
  Entry.remarks (d.members?.getD [])

/-- A definition that was read, with comment lines put among the members that it has. -/
structure Remarked (d : Definition) : Prop where
  read : ∃ text document, Document.parse text = .ok document
    ∧ d.withoutComments ∈ document.definitions
  hasMember : ∀ entries ∈ d.members?, entries ≠ [] → Entry.nodes entries ≠ []
  lines : ∀ line ∈ d.remarks, ∀ c ∈ line, Text.isNewline c = false

/-- A definition without members has no comments among them. -/
theorem withoutComments_of_block?_eq_none {d : Definition} (h : d.block? = none) :
    d.withoutComments = d := by
  cases d with
  | type t =>
      cases t with
      | block b => cases h
      | _ => rfl
  | _ => rfl

/-- Only a type with members has any. -/
theorem exists_block_of_block? {d : Definition} {block : Block} (h : d.block? = some block) :
    d = .type (.block block) := by
  cases d with
  | type t =>
      cases t with
      | block b => rw [Option.some.inj h]
      | _ => cases h
  | _ => cases h

namespace Remarked

variable {d : Definition} {rest : Text}

/-- Without its comments, a definition that may have them is well formed. -/
theorem wellFormed (h : d.Remarked) : d.withoutComments.WellFormed := by
  obtain ⟨text, document, hparse, hd⟩ := h.read
  exact ((Document.parse_yields hparse).2.2 _ hd).1

/-- Without its comments, a definition has none. -/
theorem uncommented (h : d.Remarked) : d.withoutComments.Uncommented := by
  obtain ⟨text, document, hparse, hd⟩ := h.read
  exact ((Document.parse_yields hparse).2.2 _ hd).2

/-- What can be written can be read. -/
theorem of_wellFormed (h : d.withoutComments.WellFormed) (hu : d.withoutComments.Uncommented)
    (hm : ∀ entries ∈ d.members?, entries ≠ [] → Entry.nodes entries ≠ [])
    (hl : ∀ line ∈ d.remarks, ∀ c ∈ line, Text.isNewline c = false) : d.Remarked where
  read := ⟨_, _, h.parse_print hu, List.mem_singleton_self _⟩
  hasMember := hm
  lines := hl

/-- A definition with comment lines is read as its tokens, and each line as a comment. -/
theorem carries (h : d.Remarked) (he : rest.EndsLine) :
    Carries d.printWithComments d.tokens (d.remarks.map printComment) rest := by
  cases hblock : d.block? with
  | none =>
      -- there is no place for comments
      have hwell := h.wellFormed
      have huncommented := h.uncommented
      rw [withoutComments_of_block?_eq_none hblock] at hwell huncommented
      have hspells := hwell.spells (huncommented ▸ Entry.attached_map_node _)
      have hremarks : d.remarks = [] := by
        rw [remarks, members?, hblock]
        rfl
      rw [hremarks]
      refine .plain hspells ?_ he.isBounded
      rw [huncommented.print, d.signs_print]
  | some block =>
      obtain rfl := exists_block_of_block? hblock
      have hwell : Block.WellFormed { block with members := (Entry.nodes block.members).map .node } :=
        h.wellFormed
      have hmembers : ∀ member ∈ Entry.nodes block.members, member.WellFormed block.kind := by
        have hnodes := hwell.members
        rw [Entry.nodes_map_node] at hnodes
        exact hnodes
      have hbody := Entry.carries_body hmembers (h.hasMember _ rfl) h.lines he
      have hbound : IsBounded (Entry.printBody block.members ++ rest) := by
        rw [Entry.printBody]
        split
        · exact he.isBounded
        · exact isBounded_cons.mpr rfl
      have hheader : Carries (Text.joinPresent " " block.header) block.headerTokens []
          (Entry.printBody block.members ++ rest) := by
        refine .plain ?_ block.signs_header hbound
        have hspells := Spells.joinPresent hwell.forall₂_header
        simpa [Block.headerTokens, Block.header] using hspells
      -- description, header and body stand in a row; only in the body there are comments
      have hall := (carries_description hwell.description).append (hheader.append hbody)
      show Carries block.printWithComments _ _ rest
      rw [block.printWithComments_eq]
      exact hall

end Remarked

/-- Comments are taken out once. -/
theorem withoutComments_withoutComments (d : Definition) :
    d.withoutComments.withoutComments = d.withoutComments := by
  cases hblock : d.block? with
  | none => rw [withoutComments_of_block?_eq_none hblock, withoutComments_of_block?_eq_none hblock]
  | some block =>
      obtain rfl := exists_block_of_block? hblock
      show Definition.type (.block { block with
        members := (Entry.nodes ((Entry.nodes block.members).map .node)).map .node }) = _
      rw [Entry.nodes_map_node]
      rfl

/-- Taking out comments leaves the tokens alone. -/
theorem tokens_withoutComments (d : Definition) : d.withoutComments.tokens = d.tokens := by
  cases hblock : d.block? with
  | none => rw [withoutComments_of_block?_eq_none hblock]
  | some block =>
      obtain rfl := exists_block_of_block? hblock
      show descriptionTokens block.description ++ (block.headerTokens ++ encloseTokens .openBrace
        .closeBrace ((Entry.nodes ((Entry.nodes block.members).map .node)).map Member.tokens)) = _
      rw [Entry.nodes_map_node]
      rfl

/-- Taking out comments leaves the members alone. -/
theorem members?_withoutComments (d : Definition) : d.withoutComments.members?
    = d.members?.map fun entries => (Entry.nodes entries).map .node := by
  rw [members?, withoutComments, block?_mapMembers, members?]
  cases d.block? <;> rfl

/-- Where comments are taken out, none are left. -/
theorem remarks_withoutComments (d : Definition) : d.withoutComments.remarks = [] := by
  rw [remarks, members?_withoutComments]
  cases d.members? with
  | none => rfl
  | some entries => exact Entry.remarks_map_node _

/-- What may have comments may have none. -/
theorem Remarked.withoutComments {d : Definition} (h : d.Remarked) :
    d.withoutComments.Remarked where
  read := by
    rw [withoutComments_withoutComments]
    exact h.read
  hasMember := by
    intro entries hentries hne hnil
    rw [members?_withoutComments] at hentries
    obtain ⟨others, -, rfl⟩ := Option.map_eq_some_iff.mp hentries
    rw [Entry.nodes_map_node] at hnil
    rw [hnil] at hne
    exact hne rfl
  lines := by
    rw [remarks_withoutComments]
    exact List.forall_mem_nil _

end Definition

/-! ## Top-level entries -/

namespace Entry

/-- The comment lines of a top-level entry: itself, or those among its members. -/
def ownRemarks : Entry Definition → List Text
  | .comment line => [line]
  | .node d => d.remarks

/-- All comment lines of top-level entries, in order. -/
def allRemarks (entries : List (Entry Definition)) : List Text :=
  entries.flatMap ownRemarks

/-- Top-level entries without comment lines, neither among them nor in them. -/
def withoutComments (entries : List (Entry Definition)) : List (Entry Definition) :=
  ((nodes entries).map Definition.withoutComments).map .node

/-- Definitions that were read, with comment lines put anywhere among them and among the members
    that they have. -/
structure Remarked (entries : List (Entry Definition)) : Prop where
  definitions : ∀ d ∈ nodes entries, d.Remarked
  lines : ∀ line ∈ remarks entries, ∀ c ∈ line, Text.isNewline c = false

/-- Nothing but line ends stands between an entry and those behind it. -/
theorem exists_gap (entry : Entry Definition) (others : List (Entry Definition)) :
    ∃ gap : Text, printEntries (entry :: others) = entry.print ++ (gap ++ printEntries others)
      ∧ gap.all isIgnored = true
      ∧ ∀ rest, rest.EndsLine → Text.EndsLine (gap ++ printEntries others ++ rest) := by
  by_cases hnil : others = []
  · refine ⟨[], ?_, rfl, ?_⟩
    · rw [hnil, printEntries_singleton]
      exact (List.append_nil _).symm
    · intro rest he
      rw [hnil]
      exact he
  · refine ⟨entry.gap, printEntries_cons entry hnil, ?_, ?_⟩
    · cases entry <;> rfl
    · intro rest _
      cases entry <;> exact .cons _

/-- Top-level entries are read as the tokens of the definitions, and each comment line as a
    comment. -/
theorem Remarked.carries {entries : List (Entry Definition)} (h : Remarked entries) {rest : Text}
    (he : rest.EndsLine) : Carries (printEntries entries) ((nodes entries).flatMap Definition.tokens)
      ((allRemarks entries).map printComment) rest := by
  -- what follows an entry starts with a line end, so a comment line ends there
  induction entries with
  | nil => exact .nil
  | cons entry others ih =>
      obtain ⟨gap, hprint, hignored, hends⟩ := exists_gap entry others
      rw [hprint, allRemarks, List.flatMap_cons, List.map_append]
      cases entry with
      | node d =>
          have hothers := ih ⟨fun other ho => h.definitions other (List.mem_cons_of_mem _ ho), h.lines⟩
          have hd := (h.definitions d (List.mem_cons_self ..)).carries (hends rest he)
          exact hd.append ((Carries.ignored hignored).append hothers)
      | comment line =>
          have hothers := ih ⟨h.definitions, fun other ho => h.lines other (List.mem_cons_of_mem _ ho)⟩
          have hline := Carries.remark (h.lines line (List.mem_cons_self ..)) (hends rest he)
          exact hline.append ((Carries.ignored hignored).append hothers)

theorem Remarked.withoutComments {entries : List (Entry Definition)} (h : Remarked entries) :
    Remarked (withoutComments entries) where
  definitions := by
    intro d hd
    rw [Entry.withoutComments, nodes_map_node] at hd
    obtain ⟨original, horiginal, rfl⟩ := List.mem_map.mp hd
    exact (h.definitions original horiginal).withoutComments
  lines := by
    rw [Entry.withoutComments, remarks_map_node]
    exact List.forall_mem_nil _

/-- Entries without their comments have none, at top level or among members. -/
theorem allRemarks_withoutComments (entries : List (Entry Definition)) :
    allRemarks (withoutComments entries) = [] := by
  rw [allRemarks, List.flatMap_eq_nil_iff]
  intro entry hentry
  obtain ⟨d, hd, rfl⟩ := List.mem_map.mp hentry
  obtain ⟨original, -, rfl⟩ := List.mem_map.mp hd
  exact original.remarks_withoutComments

theorem tokens_withoutComments (entries : List (Entry Definition)) :
    (nodes (withoutComments entries)).flatMap Definition.tokens
      = (nodes entries).flatMap Definition.tokens := by
  rw [withoutComments, nodes_map_node, List.flatMap_map]
  exact List.flatMap_congr fun d _ => d.tokens_withoutComments

/-- Comment lines are invisible where a document is read.  Definitions that were read are printed
    with them as the same tokens as without them, and each of the lines is one comment in the print. -/
theorem printEntries_withoutComments {entries : List (Entry Definition)} (h : Remarked entries) :
    scan (printEntries entries) = scan (printEntries (withoutComments entries))
      ∧ scan (printEntries entries)
        = ((nodes entries).flatMap Definition.tokens).map .ok ++ [.ok .endOfText]
      ∧ comments (printEntries entries) = (allRemarks entries).map printComment
      ∧ comments (printEntries (withoutComments entries)) = [] := by
  obtain ⟨hscan, hcomments⟩ := h.carries .nil
  obtain ⟨hscan', hcomments'⟩ := h.withoutComments.carries .nil
  rw [List.append_nil] at hscan hcomments hscan' hcomments'
  rw [tokens_withoutComments] at hscan'
  rw [allRemarks_withoutComments] at hcomments'
  exact ⟨hscan.trans hscan'.symm, hscan, hcomments.trans (List.append_nil _), hcomments'⟩

/-- A type and a scalar type with comment lines in front of them, between them and behind them, in
    a row and among the members.  Number signs stand in a comment line and in a string too. -/
def noted : List (Entry Definition) :=
  [.comment "a", .comment [],
    .node (.type (.block ⟨.object, none, "Query", [], [],
      [.comment "b", .comment "# c", .node (.field ⟨none, "f", [], .named "Int" false, []⟩),
        .comment "d", .node (.field ⟨some ⟨"# x\ny", true⟩, "g", [], .named "Int" false, []⟩),
        .comment "e"]⟩)),
    .comment "f", .node (.type (.scalar ⟨none, "S", []⟩)), .comment "g"]

/-- That no line holds a line end is checked character by character. -/
theorem lines_of_all {lines : List Text}
    (h : (lines.all fun line => line.all fun c => !Text.isNewline c) = true) :
    ∀ line ∈ lines, ∀ c ∈ line, Text.isNewline c = false := by
  intro line hl c hc
  have hline := List.all_eq_true.mp h line hl
  exact (Bool.not_eq_true' _).mp (List.all_eq_true.mp hline c hc)

theorem remarked_noted : Remarked noted := by
  have hint : (TypeRef.named "Int" false).WellFormed := ⟨by decide, Nat.zero_le _⟩
  have hvalue : BlockString.IsValue "# x\ny" := by
    have hread := BlockString.isValue_valueOf "# x\ny"
    have hflush : BlockString.valueOf "# x\ny" = "# x\ny" := by decide
    rwa [hflush] at hread
  have hf : Field.WellFormed ⟨none, "f", [], .named "Int" false, []⟩ :=
    ⟨fun _ hl => (by cases hl), by decide, List.forall_mem_nil _, hint, List.forall_mem_nil _⟩
  have hg : Field.WellFormed ⟨some ⟨"# x\ny", true⟩, "g", [], .named "Int" false, []⟩ := by
    refine ⟨?_, by decide, List.forall_mem_nil _, hint, List.forall_mem_nil _⟩
    intro literal hl
    obtain rfl := Option.some.inj hl
    exact hvalue
  refine ⟨List.forall_mem_cons.mpr ⟨?_, List.forall_mem_singleton.mpr ?_⟩, lines_of_all rfl⟩
  · refine .of_wellFormed ?_ rfl ?_ (lines_of_all rfl)
    · exact ⟨fun _ hl => (by cases hl), by decide, List.forall_mem_nil _, fun hne => absurd rfl hne,
        List.forall_mem_nil _, List.forall_mem_cons.mpr ⟨.object hf,
          List.forall_mem_singleton.mpr (.object hg)⟩⟩
    · intro entries hentries _ hnil
      obtain rfl := Option.some.inj hentries
      cases hnil
  · refine .of_wellFormed ?_ rfl ?_ (lines_of_all rfl)
    · exact ⟨fun _ hl => (by cases hl), by decide, List.forall_mem_nil _⟩
    · intro entries hentries
      cases hentries

theorem printEntries_withoutComments_noted : Remarked noted
    ∧ scan (printEntries noted) = scan (printEntries (withoutComments noted))
    ∧ comments (printEntries noted) = ["# a", "#", "# b", "# # c", "# d", "# e", "# f", "# g"]
    ∧ comments (printEntries (withoutComments noted)) = [] := by
  obtain ⟨hsame, -, hcomments, hnone⟩ := printEntries_withoutComments remarked_noted
  exact ⟨remarked_noted, hsame, hcomments, hnone⟩

end Entry

end SchemaStitch

import Mathlib.Data.List.Flatten
import SchemaStitch.Proofs.Bare

/-! # Members with the comments in front of them

    Entries among the members of a type fall into segments: each member with the run of comments
    in front of it.  Behind the last member there may be comments that belong to none.  Cutting
    entries into segments loses nothing, and there is one way to do it
    (`Segmented.entries_ofEntries`, `Segmented.ofEntries_entries`).

    Dropping repeated members works on whole segments: those whose key comes for the first time
    stay as they are, and so do the comments at the end (`Member.ofEntries_dedupe`).  What else
    there is to say about dropping repeated members follows from this
    (`Member.dedupe_retains`). -/

namespace SchemaStitch

/-! ## Segments -/

/-- A member with the comment lines in front of it. -/
structure Segment where
  comments : List Text
  member : Member

namespace Segment

/-- The key of the member. -/
def key (segment : Segment) : Text × Text :=
  segment.member.key

/-- The entries that a segment consists of. -/
def entries (segment : Segment) : List (Entry Member) :=
  segment.comments.map .comment ++ [.node segment.member]

end Segment

/-- Segments, and the comment lines behind the last of them. -/
structure Segmented where
  segments : List Segment
  trailing : List Text

namespace Segmented

/-- The entries that segments and the comments behind them consist of. -/
def entries (cut : Segmented) : List (Entry Member) :=
  cut.segments.flatMap Segment.entries ++ cut.trailing.map .comment

/-- A comment in front belongs to the first segment, if there is one. -/
def comment (line : Text) : Segmented → Segmented
  | ⟨[], trailing⟩ => ⟨[], line :: trailing⟩
  | ⟨segment :: rest, trailing⟩ =>
      ⟨{ segment with comments := line :: segment.comments } :: rest, trailing⟩

/-- A member in front is a segment without comments. -/
def node (member : Member) (cut : Segmented) : Segmented :=
  ⟨⟨[], member⟩ :: cut.segments, cut.trailing⟩

/-- Cut entries into segments. -/
def ofEntries : List (Entry Member) → Segmented
  | [] => ⟨[], []⟩
  | .comment line :: rest => (ofEntries rest).comment line
  | .node member :: rest => (ofEntries rest).node member

/-- A comment in front goes to the first segment, or to the comments behind all. -/
theorem entries_comment (line : Text) (cut : Segmented) :
    (cut.comment line).entries = .comment line :: cut.entries := by
  obtain ⟨segments, trailing⟩ := cut
  cases segments <;> rfl

theorem entries_node (member : Member) (cut : Segmented) :
    (cut.node member).entries = .node member :: cut.entries :=
  rfl

/-- Nothing is lost. -/
theorem entries_ofEntries (entries : List (Entry Member)) :
    (ofEntries entries).entries = entries := by
  induction entries with
  | nil => rfl
  | cons entry rest ih =>
      cases entry with
      | comment line => rw [ofEntries, entries_comment, ih]
      | node member => rw [ofEntries, entries_node, ih]

/-- Comments alone trail. -/
theorem ofEntries_trailing (lines : List Text) :
    ofEntries (lines.map .comment) = ⟨[], lines⟩ := by
  induction lines with
  | nil => rfl
  | cons line rest ih =>
      show (ofEntries (rest.map .comment)).comment line = _
      rw [ih]
      rfl

/-- A segment in front is cut off as it is. -/
theorem ofEntries_segment (segment : Segment) (rest : List (Entry Member)) :
    ofEntries (segment.entries ++ rest)
      = ⟨segment :: (ofEntries rest).segments, (ofEntries rest).trailing⟩ := by
  obtain ⟨comments, member⟩ := segment
  induction comments with
  | nil => rfl
  | cons line others ih =>
      show (ofEntries (Segment.entries ⟨others, member⟩ ++ rest)).comment line = _
      rw [ih]
      rfl

/-- There is one way to cut. -/
theorem ofEntries_entries (cut : Segmented) : ofEntries cut.entries = cut := by
  obtain ⟨segments, trailing⟩ := cut
  induction segments with
  | nil => exact ofEntries_trailing trailing
  | cons segment rest ih =>
      have hentries : entries ⟨segment :: rest, trailing⟩
          = segment.entries ++ entries ⟨rest, trailing⟩ := by
        rw [entries, List.flatMap_cons, List.append_assoc]
        rfl
      rw [hentries, ofEntries_segment, ih]

/-- Where no comments are left over, what comes behind is cut by itself. -/
theorem entries_append {first second : List (Entry Member)}
    (h : (ofEntries first).trailing = []) :
    first ++ second = entries
      ⟨(ofEntries first).segments ++ (ofEntries second).segments, (ofEntries second).trailing⟩ := by
  have hfirst : first = (ofEntries first).segments.flatMap Segment.entries := by
    have hwhole := entries_ofEntries first
    rw [entries, h, List.map_nil, List.append_nil] at hwhole
    exact hwhole.symm
  rw [entries, List.flatMap_append, List.append_assoc, ← hfirst]
  exact congrArg _ (entries_ofEntries second).symm

/-- The segments whose key comes for the first time, and the comments behind all segments. -/
def distinct (cut : Segmented) : Segmented :=
  { cut with segments := firsts Segment.key [] cut.segments }

/-- Dropping repeated segments twice drops no more. -/
theorem distinct_distinct (cut : Segmented) : cut.distinct.distinct = cut.distinct := by
  show (⟨firsts Segment.key [] (firsts Segment.key [] cut.segments), cut.trailing⟩ : Segmented) = _
  rw [firsts_firsts fun _ h => h]
  rfl

theorem entries_distinct_sublist (cut : Segmented) : cut.distinct.entries.Sublist cut.entries :=
  (firsts_sublist.flatMap _).append_right _

end Segmented

/-! ## Dropping repeated members -/

namespace Member

/-- Comments wait for the member behind them. -/
theorem dedupeFrom_comments (seen : List (Text × Text)) (pending lines : List Text)
    (rest : List (Entry Member)) :
    dedupeFrom seen pending (lines.map .comment ++ rest)
      = dedupeFrom seen (pending ++ lines) rest := by
  induction lines generalizing pending with
  | nil => rw [List.append_nil]; rfl
  | cons line others ih =>
      show dedupeFrom seen (pending ++ [line]) (others.map .comment ++ rest) = _
      rw [ih, List.append_assoc]
      rfl

/-- A segment stays as a whole or goes as a whole, and no comment is left pending behind it. -/
theorem dedupeFrom_segment (seen : List (Text × Text)) (segment : Segment)
    (rest : List (Entry Member)) :
    dedupeFrom seen [] (segment.entries ++ rest)
      = if segment.key ∈ seen then dedupeFrom seen [] rest
        else segment.entries ++ dedupeFrom (segment.key :: seen) [] rest := by
  rw [Segment.entries, List.append_assoc, dedupeFrom_comments, List.nil_append,
    List.singleton_append, dedupeFrom]
  show (if seen.contains segment.key then _ else _) = _
  by_cases hs : segment.key ∈ seen
  · rw [if_pos (List.contains_iff_mem.mpr hs), if_pos hs]
  · rw [if_neg fun hc => hs (List.contains_iff_mem.mp hc), if_neg hs, List.append_assoc]
    rfl

/-- Dropping repeated members drops their segments. -/
theorem dedupeFrom_segments (seen : List (Text × Text)) (segments : List Segment)
    (trailing : List Text) :
    dedupeFrom seen [] (Segmented.entries ⟨segments, trailing⟩)
      = Segmented.entries ⟨firsts Segment.key seen segments, trailing⟩ := by
  induction segments generalizing seen with
  | nil =>
      show dedupeFrom seen [] (trailing.map .comment) = trailing.map .comment
      rw [← List.append_nil (trailing.map _), dedupeFrom_comments, dedupeFrom, List.append_nil]
      rfl
  | cons segment rest ih =>
      rw [Segmented.entries, List.flatMap_cons, List.append_assoc, dedupeFrom_segment]
      have hrest := ih
      simp only [Segmented.entries] at hrest ⊢
      by_cases hs : segment.key ∈ seen
      · rw [if_pos hs, firsts_cons_pos hs, hrest]
      · rw [if_neg hs, firsts_cons_neg hs, hrest, List.flatMap_cons, List.append_assoc]

/-- Of the segments, those whose key comes for the first time stay. -/
theorem dedupe_entries (cut : Segmented) : dedupe cut.entries = cut.distinct.entries :=
  dedupeFrom_segments [] cut.segments cut.trailing

/-- What is kept of entries are the first segments of each key and the trailing comments. -/
theorem dedupe_eq (entries : List (Entry Member)) :
    dedupe entries = (Segmented.ofEntries entries).distinct.entries := by
  rw [← dedupe_entries, Segmented.entries_ofEntries]

theorem ofEntries_dedupe (entries : List (Entry Member)) :
    Segmented.ofEntries (dedupe entries) = (Segmented.ofEntries entries).distinct := by
  rw [dedupe_eq, Segmented.ofEntries_entries]

/-- Dropping repeats again changes nothing. -/
theorem dedupe_dedupe (entries : List (Entry Member)) :
    dedupe (dedupe entries) = dedupe entries := by
  rw [dedupe_eq (dedupe entries), ofEntries_dedupe, Segmented.distinct_distinct, ← dedupe_eq]

theorem dedupe_sublist (entries : List (Entry Member)) : (dedupe entries).Sublist entries := by
  have hsub := (Segmented.ofEntries entries).entries_distinct_sublist
  rwa [← dedupe_eq, Segmented.entries_ofEntries] at hsub

/-- No key gets lost. -/
theorem mem_keys_dedupe {entries : List (Entry Member)} {k : Text × Text} :
    k ∈ (Entry.nodes (dedupe entries)).map key ↔ k ∈ (Entry.nodes entries).map key := by
  rw [nodes_dedupe, mem_map_firsts]
  exact and_iff_left List.not_mem_nil

/-- Repeated members may be dropped from the front part first, unless comments at its end wait
    for a member of the other part. -/
theorem dedupe_dedupe_append {first : List (Entry Member)}
    (h : (Segmented.ofEntries first).trailing = []) (second : List (Entry Member)) :
    dedupe (dedupe first ++ second) = dedupe (first ++ second) := by
  have hdedupe : (Segmented.ofEntries (dedupe first)).trailing = [] := by
    rw [ofEntries_dedupe]
    exact h
  have hsegments : (Segmented.ofEntries (dedupe first)).segments
      = firsts Segment.key [] (Segmented.ofEntries first).segments := by
    rw [ofEntries_dedupe]
    rfl
  rw [Segmented.entries_append hdedupe, Segmented.entries_append h, dedupe_entries,
    dedupe_entries, hsegments, Segmented.distinct, Segmented.distinct, firsts_append,
    firsts_append, firsts_firsts fun _ hk => hk]
  -- the same keys were seen once the front part is passed
  have hseen : ∀ k, k ∈ (firsts Segment.key [] (Segmented.ofEntries first).segments).map Segment.key
        ++ [] ↔ k ∈ (Segmented.ofEntries first).segments.map Segment.key ++ [] := by
    intro k
    rw [List.append_nil, List.append_nil, mem_map_firsts]
    exact and_iff_left List.not_mem_nil
  rw [firsts_congr hseen]

/-- Entries that were kept of others when repeated members were dropped. -/
structure Retained (entries kept : List (Entry Member)) : Prop where
  /-- The entries are cut into segments. -/
  cut : (Segmented.ofEntries entries).entries = entries
  /-- What is kept are the segments at the first positions of their keys, and the comments
      behind all segments. -/
  segments : kept = Segmented.entries
    ⟨(firstPositions ((Segmented.ofEntries entries).segments.map Segment.key)).filterMap
        ((Segmented.ofEntries entries).segments[·]?),
      (Segmented.ofEntries entries).trailing⟩
  idempotent : dedupe kept = kept
  sublist : kept.Sublist entries
  keys : ∀ k, k ∈ (Entry.nodes kept).map key ↔ k ∈ (Entry.nodes entries).map key
  /-- No comments stand in front of another member than before. -/
  attached : (Segmented.ofEntries kept).segments.Sublist (Segmented.ofEntries entries).segments
  /-- Dropping from a front part without comments at its end anticipates dropping from the
      whole. -/
  front : (Segmented.ofEntries entries).trailing = [] →
    ∀ others, dedupe (kept ++ others) = dedupe (entries ++ others)

/-- Dropping repeated members keeps the first segment of every key, and nothing else but the
    comments at the end. -/
theorem dedupe_retains (entries : List (Entry Member)) : Retained entries (dedupe entries) where
  cut := Segmented.entries_ofEntries entries
  segments := by
    rw [dedupe_eq, Segmented.distinct, firsts_eq_filterMap]
  idempotent := dedupe_dedupe entries
  sublist := dedupe_sublist entries
  keys := fun _ => mem_keys_dedupe
  attached := by
    rw [ofEntries_dedupe]
    exact firsts_sublist
  front := fun h others => dedupe_dedupe_append h others

/-- A value that comes again goes together with the comment in front of it. -/
theorem dedupe_retains_values :
    let entries : List (Entry Member) :=
      [.comment "first", .node (.value ⟨none, "A", []⟩), .node (.value ⟨none, "B", []⟩),
        .comment "second", .node (.value ⟨some ⟨"x", false⟩, "A", []⟩)]
    (Segmented.ofEntries entries).trailing = []
      ∧ dedupe entries
        = [.comment "first", .node (.value ⟨none, "A", []⟩), .node (.value ⟨none, "B", []⟩)]
      ∧ Retained entries (dedupe entries) :=
  ⟨rfl, rfl, dedupe_retains _⟩

end Member

end SchemaStitch

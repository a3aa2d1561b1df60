import SchemaStitch.Proofs.Documentation
import SchemaStitch.Proofs.PlainPrinting
import SchemaStitch.Proofs.Sources

/-! # Stitching the same again

    Where repeated members are dropped, sources that come again behind others add nothing to
    what is gathered.  Their types have the names of groups that are there, so the order of the
    groups and their headings stay (`Groups.order_append_of_mem`); their members say what members
    of the groups say already, so these stay, too, and every member goes with the comments for its
    own description (`Options.stitchBlocks_append_of_mem`).  So neither the groups nor the schema
    declaration change (`Options.stitchSources_again`). -/

namespace SchemaStitch

open SchemaStitch.Groups

/-! ## Types that come again -/

section

variable {o : Options} {blocks again : List Block}

theorem mem_memberNodes {member : Member} :
    member ∈ memberNodes blocks ↔ ∃ b ∈ blocks, member ∈ Entry.nodes b.members :=
  List.mem_flatMap

theorem memberNodes_append (first second : List Block) :
    memberNodes (first ++ second) = memberNodes first ++ memberNodes second :=
  List.flatMap_append

/-- Every name has its place already. -/
theorem Groups.order_append_of_mem (names : List Text) (h : ∀ b ∈ again, b ∈ blocks) :
    order names (blocks ++ again) = order names blocks := by
  rw [order, order, List.map_append, ← List.append_assoc]
  refine firsts_append_of_mem fun name hname => ?_
  obtain ⟨b, hb, rfl⟩ := List.mem_map.mp hname
  rw [List.map_id]
  exact List.mem_append_right _ (List.mem_map_of_mem (h b hb))

namespace Options

/-- Members of types that come again are repeated members. -/
theorem distinct_append_of_mem (hd : o.dedupe = true) (h : ∀ b ∈ again, b ∈ blocks) :
    o.distinct (memberNodes (blocks ++ again)) = o.distinct (memberNodes blocks) := by
  rw [distinct, if_pos hd, distinct, if_pos hd, memberNodes_append]
  refine firsts_append_of_mem fun member hmember => ?_
  obtain ⟨b, hb, hin⟩ := mem_memberNodes.mp hmember
  exact List.mem_map_of_mem (mem_memberNodes.mpr ⟨b, h b hb, hin⟩)

/-- A type is gathered from the same types once more as without them: the heading is that of the
    first of them. -/
theorem gatheredType_append_of_mem (hd : o.dedupe = true) (h : ∀ b ∈ again, b ∈ blocks) :
    o.gatheredType (blocks ++ again) = o.gatheredType blocks := by
  cases blocks with
  | nil =>
      rw [List.nil_append, List.eq_nil_iff_forall_not_mem.mpr fun b hb => List.not_mem_nil (h b hb)]
  | cons first rest =>
      show some { first with
          members := (o.distinct (memberNodes ((first :: rest) ++ again))).map .node } = _
      rw [distinct_append_of_mem hd h]
      rfl

/-- What is gathered from plain types is the same if some of them come again. -/
theorem stitchBlocks_append_of_mem (hd : o.dedupe = true) (hplain : ∀ b ∈ blocks, b.Plain)
    (h : ∀ b ∈ again, b ∈ blocks) : o.stitchBlocks (blocks ++ again) = o.stitchBlocks blocks := by
  rw [stitchBlocks_eq, stitchBlocks_eq, order_append_of_mem _ h]
  refine List.filterMap_congr fun name _ => ?_
  have hnamed : ∀ b ∈ again.filter (fun b => b.name = name),
      b ∈ blocks.filter fun b => b.name = name := by
    intro b hb
    obtain ⟨hmem, hname⟩ := List.mem_filter.mp hb
    exact List.mem_filter.mpr ⟨h b hmem, hname⟩
  have hfirst : ∀ b ∈ blocks.filter (fun b => b.name = name), b.Plain :=
    fun b hb => hplain b (List.mem_of_mem_filter hb)
  have hboth : ∀ b ∈ blocks.filter (fun b => b.name = name) ++ again.filter (fun b => b.name = name),
      b.Plain := by
    intro b hb
    rcases List.mem_append.mp hb with hb | hb
    · exact hfirst b hb
    · exact hfirst b (hnamed b hb)
  rw [groupOf, groupOf, List.filter_append, dedupeGroup_combined o hboth,
    dedupeGroup_combined o hfirst, gatheredType_append_of_mem hd hnamed]

end Options

end

/-! ## Definitions that come again -/

namespace Options

variable {o : Options} {definitions again : List Definition}

/-- The groups with all their comments depend on the gathered types without them. -/
theorem merged_eq_stitchBlocks (h : ∀ d ∈ definitions, d.Uncommented) :
    o.merged (definitions.map .node)
      = Entry.commented ((o.stitchBlocks (definitions.filterMap o.gathered?)).map fun block =>
          .node (.type (.block block.withCommentedMembers))) := by
  have hgroups := congrArg (List.map fun block => Entry.node (Definition.type (.block block)))
    (groups_eq (o := o) h)
  rw [List.map_map, List.map_map] at hgroups
  rw [merged]
  exact congrArg Entry.commented hgroups

theorem merged_append_of_mem (hd : o.dedupe = true) (hu : ∀ d ∈ definitions, d.Uncommented)
    (h : ∀ d ∈ again, d ∈ definitions) :
    o.merged ((definitions ++ again).map .node) = o.merged (definitions.map .node) := by
  have hboth : ∀ d ∈ definitions ++ again, d.Uncommented := by
    intro d hmem
    rcases List.mem_append.mp hmem with hmem | hmem
    · exact hu d hmem
    · exact hu d (h d hmem)
  have hgathered : ∀ b ∈ again.filterMap o.gathered?, b ∈ definitions.filterMap o.gathered? := by
    intro b hb
    obtain ⟨d, hmem, hgathered⟩ := List.mem_filterMap.mp hb
    exact List.mem_filterMap.mpr ⟨d, h d hmem, hgathered⟩
  rw [merged_eq_stitchBlocks hboth, merged_eq_stitchBlocks hu, List.filterMap_append,
    stitchBlocks_append_of_mem hd (plain_gathered_of_uncommented hu) hgathered]

end Options

/-! ## Sources that come again -/

theorem entries_concat_of_uncommented (documents : List Document)
    (h : ∀ document ∈ documents, document.Uncommented) :
    (Document.concat documents).entries = (documents.flatMap Document.definitions).map .node := by
  rw [Document.concat, List.map_flatMap]
  exact List.flatMap_congr fun document hmem => (h document hmem).nodes

/-- Sources that come again are read as the documents that they were read as before. -/
theorem Source.exists_readAll_again {sources again : List Source}
    (h : ∀ source ∈ sources, ∃ document, source.read = .ok document ∧ document.Uncommented)
    (ha : ∀ source ∈ again, source ∈ sources) :
    ∃ documents repeated, Source.readAll sources = .ok documents
      ∧ Source.readAll (sources ++ again) = .ok (documents ++ repeated)
      ∧ (∀ document ∈ documents, document.Uncommented)
      ∧ ∀ document ∈ repeated, document ∈ documents := by
  have hread : ∀ source ∈ sources, ∃ document, source.read = .ok document := by
    intro source hsource
    obtain ⟨document, hdocument, -⟩ := h source hsource
    exact ⟨document, hdocument⟩
  obtain ⟨documents, hdocuments⟩ := Source.exists_readAll hread
  obtain ⟨repeated, hrepeated⟩ :=
    Source.exists_readAll fun source hsource => hread source (ha source hsource)
  -- a document read again comes from a source read before, and reading has one answer
  refine ⟨documents, repeated, hdocuments, ?_, ?_, ?_⟩
  · exact Source.readAll_eq_ok.mpr
      (List.rel_append (Source.readAll_eq_ok.mp hdocuments) (Source.readAll_eq_ok.mp hrepeated))
  · intro document hmem
    obtain ⟨source, hsource, hdocument⟩ := (Source.mem_of_readAll hdocuments).mp hmem
    obtain ⟨other, hother, hu⟩ := h source hsource
    rw [hdocument] at hother
    rwa [Except.ok.inj hother]
  · intro document hmem
    obtain ⟨source, hsource, hdocument⟩ := (Source.mem_of_readAll hrepeated).mp hmem
    exact (Source.mem_of_readAll hdocuments).mpr ⟨source, ha source hsource, hdocument⟩

/-- Documents that come again add nothing to what is gathered. -/
theorem Options.merged_concat_again {o : Options} {documents repeated : List Document}
    (hd : o.dedupe = true) (hu : ∀ document ∈ documents, document.Uncommented)
    (h : ∀ document ∈ repeated, document ∈ documents) :
    o.merged (Document.concat (documents ++ repeated)).entries
      = o.merged (Document.concat documents).entries := by
  have hall : ∀ document ∈ documents ++ repeated, document.Uncommented := by
    intro document hmem
    rcases List.mem_append.mp hmem with hmem | hmem
    · exact hu document hmem
    · exact hu document (h document hmem)
  rw [entries_concat_of_uncommented _ hall, entries_concat_of_uncommented _ hu,
    List.flatMap_append]
  refine merged_append_of_mem hd (fun d hmem => ?_) fun d hmem => ?_
  · obtain ⟨document, hdocument, hmem⟩ := List.mem_flatMap.mp hmem
    exact (hu document hdocument).definitions d hmem
  · obtain ⟨document, hdocument, hmem⟩ := List.mem_flatMap.mp hmem
    exact List.mem_flatMap.mpr ⟨document, h document hdocument, hmem⟩

/-- Where repeated members are dropped, sources without comments that come again behind others
    change neither the schema declaration nor the gathered types nor any of their comments. -/
theorem Options.stitchSources_again {o : Options} {sources again : List Source}
    (hd : o.dedupe = true) (ho : o.rootTypes.Known)
    (h : ∀ source ∈ sources, ∃ document, source.read = .ok document ∧ document.Uncommented)
    (ha : ∀ source ∈ again, source ∈ sources) :
    ∃ (s t : Stitched) (texts others : List Text),
      o.stitchSources sources = .ok (s, texts)
        ∧ o.stitchSources (sources ++ again) = .ok (t, others)
        ∧ t.schema = s.schema ∧ t.merged = s.merged := by
  obtain ⟨documents, repeated, hdocuments, hall, huncommented, hsame⟩ :=
    Source.exists_readAll_again h ha
  have hgathered := merged_concat_again hd huncommented hsame
  obtain ⟨s, hs, hstitched⟩ := exists_stitchSources ho hdocuments
  obtain ⟨t, ht, hagain⟩ := exists_stitchSources ho hall
  obtain ⟨hschema, hmerged, -⟩ := stitch_eq_ok hs
  obtain ⟨hschema', hmerged', -⟩ := stitch_eq_ok ht
  refine ⟨s, t, _, _, hstitched, hagain, ?_, ?_⟩
  · rw [hgathered, hschema] at hschema'
    exact (Except.ok.inj hschema').symm
  · rw [hmerged', hgathered, hmerged]

/-- A described field, a field that contradicts it, and the same text once more. -/
theorem stitchSources_again_contradicting :
    let o : Options := { dedupe := true }
    let sources : List Source := [.text r#"type Query {"one" a: Int a: Int!}"#]
    o.dedupe = true ∧ RootTypes.default.Known
      ∧ (∀ source ∈ sources, ∃ document, source.read = .ok document ∧ document.Uncommented)
      ∧ ∃ (s t : Stitched) (texts others : List Text),
        o.stitchSources sources = .ok (s, texts)
          ∧ o.stitchSources (sources ++ sources) = .ok (t, others)
          ∧ t.schema = s.schema ∧ t.merged = s.merged := by
  intro o sources
  have hparse : (Document.parse r#"type Query {"one" a: Int a: Int!}"#).isOk = true := by
    decide +kernel
  have hread : ∀ source ∈ sources,
      ∃ document, source.read = .ok document ∧ document.Uncommented := by
    obtain ⟨document, hdocument, hread⟩ := Source.exists_read_text hparse
    exact List.forall_mem_singleton.mpr
      ⟨document, hread, Document.uncommented_of_parse hdocument⟩
  exact ⟨rfl, RootTypes.known_default, hread, Options.stitchSources_again rfl
    RootTypes.known_default hread fun _ hsource => hsource⟩

end SchemaStitch

import Mathlib.Data.List.Forall2
import SchemaStitch.Proofs.Conservation
import SchemaStitch.Proofs.Descriptions

/-! # Stitching sources of any kind

    Sources are read one after the other, and each is read by itself: what a list of sources
    reads as are the documents of its members (`Source.readAll_eq_ok`).  If all of them can be
    read and root types are given for known operations only, stitching them succeeds
    (`Options.exists_stitchSources`). -/

namespace SchemaStitch

namespace Source

variable {sources others : List Source} {documents : List Document}

/-- Sources are read one by one. -/
theorem readAll_eq_ok :
    readAll sources = .ok documents
      ↔ List.Forall₂ (fun source document => source.read = .ok document) sources documents := by
  induction sources generalizing documents with
  | nil =>
      rw [readAll, List.forall₂_nil_left_iff]
      constructor
      · intro h
        exact (Except.ok.inj h).symm
      · rintro rfl
        rfl
  | cons source rest ih =>
      rw [readAll, bind_eq_ok, List.forall₂_cons_left_iff]
      constructor
      · rintro ⟨document, hdocument, h⟩
        obtain ⟨behind, hbehind, h⟩ := bind_eq_ok.mp h
        exact ⟨document, behind, hdocument, ih.mp hbehind, (Except.ok.inj h).symm⟩
      · rintro ⟨document, behind, hdocument, hbehind, rfl⟩
        exact ⟨document, hdocument, bind_eq_ok.mpr ⟨behind, ih.mpr hbehind, rfl⟩⟩

theorem exists_readAll (h : ∀ source ∈ sources, ∃ document, source.read = .ok document) :
    ∃ documents, readAll sources = .ok documents := by
  induction sources with
  | nil => exact ⟨[], rfl⟩
  | cons source rest ih =>
      obtain ⟨document, hdocument⟩ := h source (List.mem_cons_self ..)
      obtain ⟨behind, hbehind⟩ := ih fun other hother => h other (List.mem_cons_of_mem _ hother)
      refine ⟨document :: behind, readAll_eq_ok.mpr (.cons hdocument ?_)⟩
      exact readAll_eq_ok.mp hbehind

/-- The documents are those of the sources. -/
theorem mem_of_readAll (h : readAll sources = .ok documents) {document : Document} :
    document ∈ documents ↔ ∃ source ∈ sources, source.read = .ok document := by
  induction sources generalizing documents with
  | nil =>
      obtain rfl := Except.ok.inj h
      simp
  | cons source rest ih =>
      obtain ⟨first, hfirst, h⟩ := bind_eq_ok.mp h
      obtain ⟨behind, hbehind, h⟩ := bind_eq_ok.mp h
      obtain rfl := Except.ok.inj h
      rw [List.mem_cons, ih hbehind, List.exists_mem_cons_iff, hfirst]
      refine or_congr_left ?_
      constructor
      · rintro rfl
        rfl
      · intro heq
        exact (Except.ok.inj heq).symm

/-- A text that can be parsed is read as its document. -/
theorem exists_read_text {text : Text} (h : (Document.parse text).isOk = true) :
    ∃ document, Document.parse text = .ok document ∧ (Source.text text).read = .ok document := by
  obtain ⟨document, hdocument⟩ := exists_document h
  refine ⟨document, hdocument, ?_⟩
  rw [Source.read, hdocument]
  rfl

end Source

namespace Options

variable {o : Options} {sources : List Source} {documents : List Document}

/-- Sources that can be read are stitched as one document. -/
theorem exists_stitchSources (ho : o.rootTypes.Known)
    (h : Source.readAll sources = .ok documents) :
    ∃ s, o.stitch (Document.concat documents).entries = .ok s
      ∧ o.stitchSources sources = .ok (s, (Document.concat documents).sources) := by
  obtain ⟨s, hs⟩ := exists_stitch_entries ho (Document.concat documents).entries
  refine ⟨s, hs, ?_⟩
  rw [stitchSources, h]
  refine bind_eq_ok.mpr ⟨Document.concat documents, rfl, ?_⟩
  rw [hs]
  rfl

end Options

end SchemaStitch

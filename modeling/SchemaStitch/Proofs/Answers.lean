import SchemaStitch.Proofs.RoundTrip
import SchemaStitch.Service

/-! # Answers in either form

    The service hands out the result of a job as a text or in the JSON form.  A job that
    fails is answered alike in both.  The JSON form lists the definitions by name, so it
    needs a name for each of them; schema extensions have none, and operations need not have
    one (`Definition.IsAnonymous`).  The two answers carry the same result iff none of these
    is among the definitions of the texts, and otherwise the JSON form is refused. -/

namespace SchemaStitch

/-! ## Definitions without names -/

/-- Definitions that pass through and have no name: schema extensions, and operations
    without one. -/
def Definition.IsAnonymous : Definition → Prop
  | .extendSchema _ => True
  | .operation o => o.name = none
  | _ => False

theorem Definition.isAnonymous_iff {d : Definition} :
    d.IsAnonymous ↔ d.name? = none ∧ d.isSchema = false := by
  cases d with
  | schema s => exact ⟨False.elim, fun h => by cases h.2⟩
  | extendSchema s => exact ⟨fun _ => ⟨rfl, rfl⟩, fun _ => trivial⟩
  | operation o => exact ⟨fun h => ⟨h, rfl⟩, fun h => h.1⟩
  | _ => exact ⟨False.elim, fun h => by cases h.1⟩

/-- Comments among members leave the name alone. -/
theorem Definition.name?_withCommentedMembers (d : Definition) :
    d.withCommentedMembers.name? = d.name? := by
  rw [← name?_bare, bare_withCommentedMembers, name?_bare]

namespace Options

/-- What is gathered has a name, so nothing without one is left out but schema
    declarations. -/
theorem passes_iff_of_name?_eq_none {o : Options} {d : Definition} (h : d.name? = none) :
    o.passes (.node d) = true ↔ d.isSchema = false := by
  have hgathered : o.gathered? d = none := by
    cases hd : o.gathered? d with
    | none => rfl
    | some block =>
        obtain ⟨rfl, -⟩ := Definition.gathered?_eq_some hd
        cases h
  show ((o.gathered? d).isNone && !d.isSchema) = true ↔ _
  rw [hgathered]
  exact Bool.not_eq_eq_eq_not

/-- The names of what passes through are the names that the definitions have. -/
theorem names_rest (o : Options) (entries : List (Entry Definition)) :
    (Entry.nodes (o.rest entries)).map Definition.name?
      = ((Entry.nodes entries).filter fun d => o.passes (.node d)).map Definition.name? := by
  rw [nodes_rest, List.map_map]
  exact List.map_congr_left fun d _ => d.name?_withCommentedMembers

/-- Something without a name passes through iff there is something anonymous. -/
theorem none_mem_names_rest {o : Options} {entries : List (Entry Definition)} :
    none ∈ (Entry.nodes (o.rest entries)).map Definition.name?
      ↔ ∃ d ∈ Entry.nodes entries, d.IsAnonymous := by
  rw [names_rest, List.mem_map]
  constructor
  · rintro ⟨d, hd, hname⟩
    obtain ⟨hmem, hpasses⟩ := List.mem_filter.mp hd
    exact ⟨d, hmem, Definition.isAnonymous_iff.mpr
      ⟨hname, (passes_iff_of_name?_eq_none hname).mp hpasses⟩⟩
  · rintro ⟨d, hmem, hd⟩
    obtain ⟨hname, hschema⟩ := Definition.isAnonymous_iff.mp hd
    exact ⟨d, List.mem_filter.mpr ⟨hmem, (passes_iff_of_name?_eq_none hname).mpr hschema⟩, hname⟩

end Options

/-! ## Jobs -/

/-- If all sources can be read, each text has a document. -/
theorem document_of_readAll {texts : List Text} {documents : List Document}
    (h : Source.readAll (texts.map .text) = .ok documents) :
    ∀ text ∈ texts, ∃ document, Document.parse text = .ok document := by
  induction texts generalizing documents with
  | nil => exact fun _ htext => by cases htext
  | cons text rest ih =>
      obtain ⟨document, hread, h⟩ := bind_eq_ok.mp h
      obtain ⟨others, hrest, -⟩ := bind_eq_ok.mp h
      exact List.forall_mem_cons.mpr ⟨⟨document, mapError_eq_ok.mp hread⟩, ih hrest⟩

/-- A job that succeeds stitches what its texts hold. -/
theorem Job.stitch_of_run {job : Job} {s : Stitched} (h : job.run = .ok s) :
    job.options.stitch (entriesOf job.texts) = .ok s := by
  obtain ⟨stitched, hstitch, h⟩ := bind_eq_ok.mp h
  obtain ⟨_, -, h⟩ := bind_eq_ok.mp h
  obtain rfl := Except.ok.inj h
  obtain ⟨result, hsources, rfl⟩ := map_eq_ok.mp (mapError_eq_ok.mp hstitch)
  obtain ⟨documents, hread, -⟩ := bind_eq_ok.mp hsources
  obtain ⟨_, hall, -⟩ := map_eq_ok.mp hread
  rw [stitchSources_texts (document_of_readAll (mapError_eq_ok.mp hall))] at hsources
  obtain ⟨s, hs, rfl⟩ := map_eq_ok.mp hsources
  exact mapError_eq_ok.mp hs

/-- What is merged has names, all of them. -/
theorem Job.merged_of_run {job : Job} {s : Stitched} (h : job.run = .ok s) :
    ∃ names : List Text, s.mergedNames = names.map some := by
  obtain ⟨-, hmerged, -⟩ := Options.stitch_eq_ok (stitch_of_run h)
  exact ⟨_, by rw [Stitched.mergedNames, hmerged, Options.names_merged]⟩

/-- A definition without a name is printed iff a text holds one that is anonymous. -/
theorem Job.none_mem_restNames {job : Job} {s : Stitched} (h : job.run = .ok s) :
    none ∈ s.restNames ↔ ∃ text ∈ job.texts, ∃ d ∈ definitionsOf text, d.IsAnonymous := by
  obtain ⟨-, -, hrest⟩ := Options.stitch_eq_ok (stitch_of_run h)
  rw [Stitched.restNames, hrest, Options.none_mem_names_rest, nodes_entriesOf]
  constructor
  · rintro ⟨d, hd, hanonymous⟩
    obtain ⟨text, htext, hd⟩ := List.mem_flatMap.mp hd
    exact ⟨text, htext, d, hd, hanonymous⟩
  · rintro ⟨text, htext, d, hd, hanonymous⟩
    exact ⟨d, List.mem_flatMap.mpr ⟨text, htext, hd⟩, hanonymous⟩

/-! ## Responses -/

namespace Service

/-- No name is reported missing exactly if none is. -/
theorem namelessFrom_eq_nil {index : Nat} {names : List (Option Text)} :
    namelessFrom index names = [] ↔ none ∉ names := by
  induction names generalizing index with
  | nil => exact ⟨fun _ => List.not_mem_nil, fun _ => rfl⟩
  | cons name rest ih =>
      cases name with
      | none =>
          exact ⟨fun h => absurd h (List.cons_ne_nil _ _),
            fun h => absurd (List.mem_cons_self ..) h⟩
      | some name =>
          rw [namelessFrom, ih, List.mem_cons, not_or]
          exact ⟨fun h => ⟨fun heq => (by cases heq), h⟩, fun h => h.2⟩

theorem exists_map_some {names : List (Option Text)} (h : none ∉ names) :
    ∃ known : List Text, names = known.map some := by
  induction names with
  | nil => exact ⟨[], rfl⟩
  | cons name rest ih =>
      rw [List.mem_cons, not_or] at h
      obtain ⟨known, hknown⟩ := ih h.2
      obtain ⟨first, hfirst⟩ := Option.ne_none_iff_exists'.mp (Ne.symm h.1)
      exact ⟨first :: known, by rw [hfirst, hknown, List.map_cons]⟩

/-- The JSON form of a result: the text, the names of the gathered types and the names of
    what passes through. -/
def jsonForm (sdl : Text) (merged types : List Text) : Json :=
  .record
    [("status", .text "success"), ("sdl", .text sdl),
      ("merged_types", .array (merged.map Json.text)), ("types", .array (types.map Json.text))]

/-- Two answers about a job that differ in the form of the result only, if there is one. -/
structure SameResult (job : Job) (text json : Response) : Prop where
  status : json.status = text.status
  failure : text.status ≠ 200 → json = text
  success : text.status = 200 → ∃ s merged types, job.run = .ok s ∧ text.content = .text s.print
    ∧ s.mergedNames = merged.map some ∧ s.restNames = types.map some
    ∧ json.content = .json (jsonForm s.print merged types)

/-- A request to do a job and to hand out the result in a form. -/
structure Request.Asks (request : Request) (job : Job) (format : Format) : Prop where
  path : Endpoint.ofPath? request.path = some .merge
  method : request.method = Endpoint.merge.method
  body : StitchRequest.ofBody request.contentType request.body = .ok ⟨job, format⟩

/-- A request that asks for a job is answered with its outcome. -/
theorem Request.Asks.handle_eq {request : Request} {job : Job} {format : Format}
    (h : request.Asks job format) : handle request = StitchRequest.answer ⟨job, format⟩ := by
  rw [handle, h.path]
  show (if request.method = Endpoint.merge.method then _ else _) = _
  rw [if_pos h.method, Endpoint.answer, stitch, h.body]

/-- Two requests whose bodies are objects with the same fields, but that the second one asks
    for the JSON form. -/
structure Request.SameButFormat (text json : Request) : Prop where
  path : Endpoint.ofPath? json.path = Endpoint.ofPath? text.path
  method : json.method = text.method
  bodies : ∃ fields others, readBody text.contentType text.body = .ok (.object fields)
    ∧ readBody json.contentType json.body = .ok (.object others)
    ∧ (∀ name : Text, name ≠ "output_format" →
      (Json.object fields).field? name = (Json.object others).field? name)
    ∧ (Json.object others).field? "output_format" = some (.text "json")

/-- A field is read alike from bodies that have the same one. -/
theorem readField_congr {α : Type} {body other : Json} {name : Text}
    (h : body.field? name = other.field? name) (default : α)
    (read : Json → Except RequestFault α) :
    readField body name default read = readField other name default read := by
  rw [readField, readField, h]

/-- The job is read apart from the form. -/
theorem ofFields_format {body other : Json} {request : StitchRequest} {format : Format}
    (h : StitchRequest.ofFields body = .ok request)
    (hs : ∀ name : Text, name ≠ "output_format" → body.field? name = other.field? name)
    (hf : readField other "output_format" .sdl readFormat = .ok format) :
    StitchRequest.ofFields other = .ok ⟨request.job, format⟩ := by
  rw [StitchRequest.ofFields, hs "sources" (by decide),
    readField_congr (hs "all" (by decide)), readField_congr (hs "dedupe" (by decide)),
    readField_congr (hs "validate" (by decide))] at h
  rw [StitchRequest.ofFields, hf]
  split at h
  · next hsources hall hdedupe hvalidate hformat =>
      rw [← Except.ok.inj h, hsources, hall, hdedupe, hvalidate]
  · cases h

/-- Asking for the JSON form instead is asking for the same job. -/
theorem Request.SameButFormat.asks {text json : Request} {job : Job} {format : Format}
    (h : text.SameButFormat json) (ht : text.Asks job format) : json.Asks job .json := by
  obtain ⟨fields, others, hbody, hother, hfields, hformat⟩ := h.bodies
  refine ⟨h.path.trans ht.path, h.method.trans ht.method, ?_⟩
  obtain ⟨value, hvalue, hread⟩ := bind_eq_ok.mp ht.body
  obtain rfl := Except.ok.inj (hbody.symm.trans hvalue)
  have hjson : readField (Json.object others) "output_format" .sdl readFormat = .ok .json := by
    rw [readField, hformat]
    rfl
  have hasked := ofFields_format (mapError_eq_ok.mp hread) hfields hjson
  exact bind_eq_ok.mpr ⟨_, hother, mapError_eq_ok.mpr hasked⟩

theorem failureStatus_ne (fault : JobError) : failureStatus fault ≠ 200 := by
  rw [failureStatus.eq_def]
  split <;> decide

section

variable {job : Job} {s : Stitched}

/-- A job that fails is answered with its message. -/
theorem answer_error {fault : JobError} (h : job.run = .error fault) (format : Format) :
    StitchRequest.answer ⟨job, format⟩
      = .detail (failureStatus fault) (.text fault.message) := by
  rw [StitchRequest.answer, h]

/-- A job that ends well is answered with the printed result. -/
theorem answer_sdl (h : job.run = .ok s) :
    StitchRequest.answer ⟨job, .sdl⟩ = ⟨200, .text s.print⟩ := by
  rw [StitchRequest.answer, h]

/-- Asked for JSON, it is answered with the printed result and the names. -/
theorem answer_json (h : job.run = .ok s) {merged types : List Text}
    (hm : s.mergedNames = merged.map some) (ht : s.restNames = types.map some) :
    StitchRequest.answer ⟨job, .json⟩ = ⟨200, .json (jsonForm s.print merged types)⟩ := by
  have hnames : namelessFrom 0 s.restNames = [] := by
    rw [namelessFrom_eq_nil, ht]
    exact fun hmem => by simp at hmem
  rw [StitchRequest.answer, h]
  show jsonResult s = _
  rw [jsonResult, hnames]
  show Response.mk 200 _ = _
  rw [hm, ht, List.map_map, List.map_map]
  rfl

/-- A definition without a name makes that answer an internal error. -/
theorem answer_json_nameless (h : job.run = .ok s) (hn : none ∈ s.restNames) :
    (StitchRequest.answer ⟨job, .json⟩).status = 500 := by
  rw [StitchRequest.answer, h]
  show (jsonResult s).status = 500
  rw [jsonResult]
  split
  · next hnil => exact absurd hn (namelessFrom_eq_nil.mp hnil)
  · rfl

end

/-- The two answers to a job carry the same result iff the job fails or no text holds a
    schema extension or an operation without a name; otherwise the JSON form is broken. -/
theorem sameResult_iff {text json : Request} {job : Job} (ht : text.Asks job .sdl)
    (hs : text.SameButFormat json) :
    (SameResult job (handle text) (handle json) ↔ ∀ s, job.run = .ok s →
        ∀ t ∈ job.texts, ∀ d ∈ definitionsOf t, ¬d.IsAnonymous)
      ∧ (¬SameResult job (handle text) (handle json) →
        (handle text).status = 200 ∧ (handle json).status = 500) := by
  rw [ht.handle_eq, (hs.asks ht).handle_eq]
  cases hrun : job.run with
  | error fault =>
      have hsame : SameResult job (StitchRequest.answer ⟨job, .sdl⟩)
          (StitchRequest.answer ⟨job, .json⟩) := by
        rw [answer_error hrun, answer_error hrun]
        exact ⟨rfl, fun _ => rfl, fun h => absurd h (failureStatus_ne fault)⟩
      exact ⟨⟨fun _ s hs => (by cases hs), fun _ => hsame⟩, fun h => absurd hsame h⟩
  | ok s =>
      -- the JSON form lists the names of what passes through, so it breaks where one has none
      by_cases hnone : none ∈ s.restNames
      · obtain ⟨t, htext, d, hd, hanonymous⟩ := (Job.none_mem_restNames hrun).mp hnone
        have hstatus := answer_json_nameless hrun hnone
        rw [answer_sdl hrun]
        refine ⟨⟨fun h => ?_, fun h => ?_⟩, fun _ => ⟨rfl, hstatus⟩⟩
        · have hequal : 500 = 200 := hstatus.symm.trans h.status
          exact absurd hequal (by decide)
        · exact absurd hanonymous (h s rfl t htext d hd)
      · obtain ⟨merged, hmerged⟩ := Job.merged_of_run hrun
        obtain ⟨types, htypes⟩ := exists_map_some hnone
        have hsame : SameResult job (StitchRequest.answer ⟨job, .sdl⟩)
            (StitchRequest.answer ⟨job, .json⟩) := by
          rw [answer_sdl hrun, answer_json hrun hmerged htypes]
          exact ⟨rfl, fun h => absurd rfl h, fun _ =>
            ⟨s, merged, types, hrun, rfl, hmerged, htypes, rfl⟩⟩
        refine ⟨⟨fun _ s' hs t htext d hd hanonymous => hnone ?_, fun _ => hsame⟩,
          fun h => absurd hsame h⟩
        exact (Job.none_mem_restNames hrun).mpr ⟨t, htext, d, hd, hanonymous⟩

/-- A field at the end of an object. -/
theorem field?_concat (fields : List (RawText × Json)) (value : Json) {name other : Text}
    (h : name ≠ other) :
    (Json.object fields).field? name
      = (Json.object (fields ++ [(RawText.ofText other, value)])).field? name := by
  have hraw : RawText.ofText other ≠ RawText.ofText name := by
    intro heq
    exact h (List.map_injective_iff.mpr (fun _ _ hc => CodePoint.char.inj hc) heq.symm)
  show Keyed.get? _ _ = Keyed.get? _ _
  rw [Keyed.get?, Keyed.get?, List.find?_append, List.find?_singleton]
  simp [hraw]

/-- A request to stitch one text, with more fields behind it. -/
def posted (source more : Text) : Request :=
  ⟨"POST", "/merge", "application/json",
    Utf8.encode (r#"{"sources":[""# ++ source ++ r#""]"# ++ more ++ r"}")⟩

/-- A request for the text that one text is stitched into. -/
def postedText (source : Text) : Request :=
  posted source []

/-- A request for the JSON form of what one text is stitched into. -/
def postedJson (source : Text) : Request :=
  posted source r#","output_format":"json""#

theorem posted_sameButFormat {source : Text} (sources : Json)
    (ht : readBody "application/json" (postedText source).body
      = .ok (.object [(RawText.ofText "sources", sources)]))
    (hj : readBody "application/json" (postedJson source).body
      = .ok (.object ([(RawText.ofText "sources", sources)]
          ++ [(RawText.ofText "output_format", .text "json")]))) :
    (postedText source).SameButFormat (postedJson source) :=
  ⟨rfl, rfl, _, _, ht, hj, fun _ hname => field?_concat _ _ hname, rfl⟩

/-- A definition with a name is handed out in either form. -/
theorem sameResult_scalar :
    (postedText "scalar A").Asks ⟨["scalar A"], {}, false⟩ .sdl
      ∧ (postedText "scalar A").SameButFormat (postedJson "scalar A")
      ∧ SameResult ⟨["scalar A"], {}, false⟩ (handle (postedText "scalar A"))
          (handle (postedJson "scalar A")) := by
  have hasks : (postedText "scalar A").Asks ⟨["scalar A"], {}, false⟩ .sdl := ⟨rfl, rfl, rfl⟩
  have hsame : (postedText "scalar A").SameButFormat (postedJson "scalar A") :=
    posted_sameButFormat (.array [.text "scalar A"]) rfl rfl
  refine ⟨hasks, hsame, (sameResult_iff hasks hsame).1.mpr fun s _ t ht d hd hanonymous => ?_⟩
  have hdefinitions : definitionsOf "scalar A" = [.type (.scalar ⟨none, "A", []⟩)] := rfl
  rw [List.mem_singleton.mp ht, hdefinitions] at hd
  rw [List.mem_singleton.mp hd] at hanonymous
  exact hanonymous

/-- A schema extension is handed out as a text, and in the JSON form it is refused. -/
theorem not_sameResult :
    (postedText "extend schema @a").SameButFormat (postedJson "extend schema @a")
      ∧ (handle (postedText "extend schema @a")).status = 200
      ∧ (handle (postedJson "extend schema @a")).status = 500 := by
  refine ⟨posted_sameButFormat (.array [.text "extend schema @a"]) rfl rfl, ?_, ?_⟩
  · decide +kernel
  · decide +kernel

end Service

end SchemaStitch

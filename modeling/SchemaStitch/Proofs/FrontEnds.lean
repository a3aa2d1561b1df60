import SchemaStitch.Proofs.Bodies
import SchemaStitch.Proofs.Outcomes
import SchemaStitch.Proofs.Overlong

/-! # The two front ends

    The command line and the service do the same jobs.  Given texts that are sources by
    themselves, a run of the program and a request to the service come to the same end: both
    hand out the same text, or both blame the texts with the same words.  There is one
    exception (`agree_iff`): if a name cannot be compared with others, the program blames the
    texts and the service breaks. -/

namespace SchemaStitch

/-! ## Reports -/

/-- A report of nothing that is shown by default. -/
def Log.Quiet (log : Log) : Prop :=
  ∀ record ∈ log, record.level.rank < LogLevel.warning.rank

namespace Log

variable {log other : Log}

theorem quiet_nil : Quiet [] :=
  fun _ h => by cases h

/-- A record at level debug or info disturbs no log. -/
theorem quiet_cons {record : LogRecord} (hr : record.level = .debug ∨ record.level = .info)
    (h : log.Quiet) : Quiet (record :: log) := by
  refine List.forall_mem_cons.mpr ⟨?_, h⟩
  rcases hr with hr | hr
  · rw [hr]; decide
  · rw [hr]; decide

/-- Quiet logs are quiet together. -/
theorem Quiet.append (h : log.Quiet) (ho : other.Quiet) : (log ++ other).Quiet := by
  intro record hrecord
  rcases List.mem_append.mp hrecord with hrecord | hrecord
  · exact h record hrecord
  · exact ho record hrecord

/-- Logs about several items are quiet if the log about each is. -/
theorem quiet_flatMap {α : Type} {items : List α} {f : α → Log} (h : ∀ a ∈ items, (f a).Quiet) :
    Quiet (items.flatMap f) := by
  intro record hrecord
  obtain ⟨a, ha, hrecord⟩ := List.mem_flatMap.mp hrecord
  exact h a ha record hrecord

/-- A quiet log shows nothing at the usual level. -/
theorem Quiet.atLeast_eq_nil (h : log.Quiet) : log.atLeast .warning = [] := by
  refine List.filter_eq_nil_iff.mpr fun record hrecord hshown => ?_
  exact absurd (of_decide_eq_true hshown) (Nat.not_le.mpr (h record hrecord))

end Log

theorem quiet_readLogFrom (index : Nat) (documents : List Document) :
    (readLogFrom index documents).Quiet := by
  induction documents generalizing index with
  | nil => exact Log.quiet_nil
  | cons document rest ih => exact Log.quiet_cons (.inl rfl) (ih (index + 1))

/-- Gathering types into groups logs nothing above debug. -/
theorem quiet_gatherLog (groups : Groups) (blocks : List Block) :
    (gatherLog groups blocks).Quiet := by
  induction blocks generalizing groups with
  | nil => exact Log.quiet_nil
  | cons block rest ih => exact Log.quiet_cons (.inl rfl) (ih _)

theorem Member.quiet_dedupeLog (entries : List (Entry Member)) : (dedupeLog entries).Quiet := by
  intro record hrecord
  obtain ⟨member, -, rfl⟩ := List.mem_map.mp hrecord
  exact Nat.zero_lt_two

/-- Stitching logs nothing that is shown by default. -/
theorem Options.quiet_stitchLog (o : Options) (entries : List (Entry Definition)) :
    (o.stitchLog entries).Quiet := by
  refine ((quiet_gatherLog _ _).append ?_).append ?_
  · rw [dedupeLog]
    split
    · exact Log.quiet_flatMap fun block _ => Member.quiet_dedupeLog block.members
    · exact Log.quiet_nil
  · cases o.stitch entries with
    | error fault => exact Log.quiet_nil
    | ok s =>
        show (s.log entries).Quiet
        rw [Stitched.log]
        refine Log.Quiet.append ?_ (Log.quiet_cons (.inr rfl) Log.quiet_nil)
        split
        · exact Log.quiet_nil
        · exact Log.quiet_cons (.inl rfl) Log.quiet_nil

/-- A job reports nothing that is shown by default. -/
theorem Job.quiet_log (job : Job) : job.log.Quiet := by
  refine Log.Quiet.append ?_ ?_
  · rw [Options.sourcesLog]
    split
    · exact Log.quiet_nil
    · exact (quiet_readLogFrom 0 _).append (Options.quiet_stitchLog _ _)
  · split
    · exact Log.quiet_nil
    · split
      · rw [checkLog]
        split
        · rw [Document.validateLog]
          split
          · exact Log.quiet_flatMap fun d _ => Member.quiet_dedupeLog _
          · exact Log.quiet_nil
        · exact Log.quiet_nil
      · exact Log.quiet_nil

namespace CommandLine

variable {tree : FileTree} {texts words : List Text} {all dedupe validate : Bool}

/-! ## Texts as sources -/

/-- A text that is a source by itself: it leads to no file or directory, and it looks neither
    like the name of a schema file nor like an option. -/
structure IsRaw (tree : FileTree) (text : Text) : Prop where
  unnamed : tree.look? text = none
  unending : isSchemaName text = false
  undashed : text.head? ≠ some '-'

/-- The name of a schema file ends in a letter. -/
theorem isSchemaName_digit {name : Text} {c : Char} (hl : name.getLast? = some c)
    (hc : isDigit c = true) : isSchemaName name = false := by
  have hletter : ∀ ending ∈ schemaEndings, ∃ last, ending.getLast? = some last
      ∧ isDigit last = false := by
    rw [schemaEndings, List.forall_mem_cons, List.forall_mem_cons, List.forall_mem_singleton]
    exact ⟨⟨'l', rfl, rfl⟩, ⟨'l', rfl, rfl⟩, ⟨'s', rfl, rfl⟩⟩
  refine List.any_eq_false.mpr fun ending hending hsuffix => ?_
  obtain ⟨last, hlast, hdigit⟩ := hletter ending hending
  obtain ⟨front, rfl⟩ := List.isSuffixOf_iff_suffix.mp hsuffix
  rw [List.getLast?_append, hlast] at hl
  obtain rfl := Option.some.inj hl
  rw [hc] at hdigit
  cases hdigit

/-- Raw texts are loaded as they are. -/
theorem loadAll_raw (h : ∀ text ∈ texts, IsRaw tree text) : tree.loadAll texts = .ok texts := by
  induction texts with
  | nil => rfl
  | cons text rest ih =>
      obtain ⟨htext, hrest⟩ := List.forall_mem_cons.mp h
      have hload : tree.load text = .ok [text] := by
        rw [FileTree.load, htext.unnamed]
        exact if_neg (Bool.eq_false_iff.mp htext.unending)
      rw [FileTree.loadAll, hload, ih hrest]
      rfl

/-- Nothing is logged about raw texts. -/
theorem loadAllLog_raw (h : ∀ text ∈ texts, IsRaw tree text) : tree.loadAllLog texts = [] := by
  induction texts with
  | nil => rfl
  | cons text rest ih =>
      obtain ⟨htext, hrest⟩ := List.forall_mem_cons.mp h
      rw [FileTree.loadAllLog, FileTree.loadLog, htext.unnamed, ih hrest]
      cases tree.load text <;> rfl

/-! ## Words -/

/-- The words for options that are set. -/
def flags (all dedupe validate : Bool) : List Text :=
  (if all then [("--all" : Text)] else []) ++ (if dedupe then [("--dedupe" : Text)] else [])
    ++ if validate then [("--validate" : Text)] else []

/-- The words for options that are set as they are read. -/
def flagWords (all dedupe validate : Bool) : List Word :=
  (if all then [.option .all false none] else [])
    ++ (if dedupe then [.option .dedupe false none] else [])
    ++ if validate then [.option .validate false none] else []

/-- A word that starts with no dash is a source. -/
theorem Word.read_raw {text : Text} (h : text.head? ≠ some '-') :
    Word.read text = .ok (.source text) := by
  rw [Word.read.eq_def]
  split
  · next c rest => exact absurd rfl h
  · rfl

/-- Sources in front of other words are read as sources. -/
theorem Word.readAll_raw (h : ∀ text ∈ texts, text.head? ≠ some '-') {behind : List Text}
    {others : List Word} (hb : Word.readAll behind = .ok others) :
    Word.readAll (texts ++ behind) = .ok (texts.map .source ++ others) := by
  induction texts with
  | nil => exact hb
  | cons text rest ih =>
      obtain ⟨htext, hrest⟩ := List.forall_mem_cons.mp h
      have hdashes : text ≠ ['-', '-'] := by
        rintro rfl
        exact htext rfl
      rw [List.cons_append, Word.readAll, if_neg hdashes, Word.read_raw htext, ih hrest]
      rfl

/-- Flags in front of other words are read as flags. -/
theorem Word.readAll_flags (all dedupe validate : Bool) {behind : List Text}
    {others : List Word} (hb : Word.readAll behind = .ok others) :
    Word.readAll (flags all dedupe validate ++ behind)
      = .ok (flagWords all dedupe validate ++ others) := by
  cases all <;> cases dedupe <;> cases validate <;>
    simp only [flags, Bool.false_eq_true, if_true, if_false, List.nil_append, List.cons_append,
      List.append_nil, Word.readAll, hb] <;> rfl

/-- Words that are no options are sources, as long as no option stands behind sources. -/
theorem Progress.readWords_sources {progress : Progress} (hs : progress.stage ≠ .after)
    (hne : texts ≠ []) (behind : List Word) :
    progress.readWords (texts.map .source ++ behind)
      = Progress.readWords
          { progress with
            stage := .during
            arguments :=
              { progress.arguments with
                sources := progress.arguments.sources ++ texts } } behind := by
  induction texts generalizing progress with
  | nil => exact absurd rfl hne
  | cons text rest ih =>
      -- a source starts the sources or goes on with them, and the stage is the same behind it
      have hsource : progress.source text = { progress with
          stage := .during
          arguments :=
            { progress.arguments with sources := progress.arguments.sources ++ [text] } } := by
        rw [Progress.source.eq_def]
        split
        · next hafter => exact absurd hafter hs
        · rfl
      show (progress.source text).readWords (rest.map .source ++ behind) = _
      rw [hsource]
      cases rest with
      | nil => rfl
      | cons next others =>
          rw [ih (fun h => by cases h) (List.cons_ne_nil _ _)]
          simp only [List.append_assoc, List.singleton_append]

/-- Words are read to the arguments that they come to, if these have sources and nothing is
    refused. -/
theorem Arguments.read_of_readWords {read : List Word} {arguments : Arguments} {stage : Stage}
    (hread : Word.readAll words = .ok read)
    (hwords : Progress.readWords {} read = .ok (some ⟨arguments, stage, []⟩))
    (hne : arguments.sources ≠ []) : Arguments.read words = .ok (some arguments) := by
  rw [Arguments.read, hread]
  show ((Progress.readWords {} read) >>= _) = _
  rw [hwords]
  exact if_neg fun hempty => hne (List.isEmpty_iff.mp hempty)

/-- Options may stand before or behind the sources. -/
theorem Arguments.read_raw (hne : texts ≠ []) (h : ∀ text ∈ texts, text.head? ≠ some '-')
    (hw : words = texts ++ flags all dedupe validate ∨ words = flags all dedupe validate ++ texts) :
    Arguments.read words
      = .ok (some { sources := texts, all := all, dedupe := dedupe, validate := validate }) := by
  rcases hw with rfl | rfl
  · -- options behind the sources end the sources
    have hflags : Word.readAll (flags all dedupe validate)
        = .ok (flagWords all dedupe validate) := by
      have hall := Word.readAll_flags all dedupe validate (rfl : Word.readAll [] = .ok [])
      rwa [List.append_nil, List.append_nil] at hall
    have hwords : Progress.readWords {} (texts.map .source ++ flagWords all dedupe validate)
        = .ok (some ⟨{ sources := texts, all, dedupe, validate },
          if all || dedupe || validate then .after else .during, []⟩) := by
      rw [Progress.readWords_sources (fun h => by cases h) hne]
      cases all <;> cases dedupe <;> cases validate <;> rfl
    exact Arguments.read_of_readWords (Word.readAll_raw h hflags) hwords hne
  · -- options before the sources leave the stage as it was
    have hraw : Word.readAll texts = .ok (texts.map .source) := by
      have hall := Word.readAll_raw h (rfl : Word.readAll [] = .ok [])
      rwa [List.append_nil, List.append_nil] at hall
    have hbefore : Progress.readWords {} (flagWords all dedupe validate ++ texts.map .source)
        = Progress.readWords { arguments := { all, dedupe, validate } } (texts.map .source) := by
      cases all <;> cases dedupe <;> cases validate <;> rfl
    have hwords : Progress.readWords {} (flagWords all dedupe validate ++ texts.map .source)
        = .ok (some ⟨{ sources := texts, all, dedupe, validate }, .during, []⟩) := by
      rw [hbefore, ← List.append_nil (texts.map Word.source),
        Progress.readWords_sources (fun h => by cases h) hne]
      rfl
    exact Arguments.read_of_readWords (Word.readAll_flags all dedupe validate hraw) hwords hne

/-! ## Runs on texts -/

theorem quiet_preview (s : Stitched) : (preview s).Quiet := by
  intro record hrecord
  obtain ⟨line, -, rfl⟩ := List.mem_map.mp hrecord
  exact Nat.one_lt_two

/-- What a run leaves behind that prints what its job comes to. -/
def Outcome.ofResult (tree : FileTree) : Except JobError Stitched → Outcome
  | .error fault => .failed tree 1 ("ERROR: " ++ fault.message ++ "\n")
  | .ok s => ⟨.exit 0, s.print ++ "\n", [], tree⟩

namespace Arguments

variable {arguments : Arguments}

/-- A run on raw texts logs nothing that is shown by default. -/
theorem quiet_log (h : ∀ text ∈ arguments.sources, IsRaw tree text) :
    (arguments.log tree).Quiet := by
  rw [log, loadAllLog_raw h, loadAll_raw h]
  exact Job.quiet_log _

/-- What is shown behind a quiet log is what is shown alone. -/
theorem shown_of_quiet (hv : arguments.verbosity = 0) {log : Log} (h : log.Quiet) (more : Log) :
    arguments.shown (log ++ more) = (more.atLeast .warning).print := by
  have hlevel : arguments.level = .warning := by
    rw [level, hv]
    rfl
  have hsplit : Log.atLeast .warning (log ++ more)
      = log.atLeast .warning ++ more.atLeast .warning :=
    List.filter_append ..
  rw [shown, hlevel, hsplit, h.atLeast_eq_nil, List.nil_append]

/-- A run on texts prints what its job comes to, and by default it shows nothing but the message
    of a failure. -/
theorem run_raw (h : ∀ text ∈ arguments.sources, IsRaw tree text) (hv : arguments.verbosity = 0)
    (ho : arguments.output = []) :
    arguments.run tree = Outcome.ofResult tree (arguments.job arguments.sources).run := by
  have hresult : arguments.result tree
      = (arguments.job arguments.sources).run.mapError .job := by
    rw [result, loadAll_raw h]
    rfl
  have hquiet := quiet_log h
  rw [run, hresult]
  cases (arguments.job arguments.sources).run with
  | error fault =>
      show Outcome.failed tree 1
        (arguments.shown (arguments.log tree ++ [⟨.error, fault.message⟩])) = _
      rw [shown_of_quiet hv hquiet]
      show Outcome.failed tree 1 (Log.print [⟨.error, fault.message⟩]) = _
      rw [Log.print, List.flatMap_singleton]
      rfl
  | ok s =>
      have hnothing : arguments.shown (arguments.log tree ++ preview s) = [] := by
        rw [shown_of_quiet hv hquiet, (quiet_preview s).atLeast_eq_nil]
        rfl
      show deliver arguments tree (arguments.log tree ++ preview s) s = _
      rw [deliver, ho, hnothing]
      rfl

end Arguments

end CommandLine

/-! ## Agreement -/

/-- A run of the program and a response of the service that come to the same end. -/
structure Agree (outcome : CommandLine.Outcome) (response : Service.Response) : Prop where
  /-- One succeeds iff the other does, -/
  success : outcome.ending = .exit 0 ↔ response.status = 200
  /-- and then both hand out the same text. -/
  text : response.status = 200 →
    ∃ text, response.content = .text text ∧ outcome.output = text ++ "\n"
  /-- Else both blame what they were given, with the same words. -/
  blame : response.status ≠ 200 → outcome.ending = .exit 1
    ∧ ∃ detail, response = .detail 400 (.text detail) ∧ outcome.errors = "ERROR: " ++ detail ++ "\n"

/-- Front ends that agree do not answer with an internal error. -/
theorem Agree.status_ne {outcome : CommandLine.Outcome} {response : Service.Response}
    (h : Agree outcome response) : response.status ≠ 500 := by
  intro hstatus
  have hfailure : response.status ≠ 200 := by
    rw [hstatus]
    decide
  obtain ⟨-, detail, hdetail, -⟩ := h.blame hfailure
  rw [hdetail] at hstatus
  cases hstatus

open CommandLine Service

/-- A failure is an internal error exactly if a numeral was too long to suggest. -/
theorem failureStatus_eq (fault : JobError) :
    failureStatus fault = 500 ∧ (∃ error, fault = .checking (.invalid (.numeral error)))
      ∨ failureStatus fault = 400 ∧ ∀ error, fault ≠ .checking (.invalid (.numeral error)) := by
  rw [failureStatus.eq_def]
  split
  · next error => exact .inl ⟨rfl, error, rfl⟩
  · next h => exact .inr ⟨rfl, h⟩

/-- A run on texts prints what the job comes to that the words ask for. -/
theorem run_texts {tree : FileTree} {texts words : List Text} {all dedupe validate : Bool}
    (hne : texts ≠ []) (ht : ∀ text ∈ texts, IsRaw tree text)
    (hw : words = texts ++ flags all dedupe validate ∨ words = flags all dedupe validate ++ texts) :
    run tree words
      = Outcome.ofResult tree
        (Job.run ⟨texts, { mergeAll := all, dedupe := dedupe }, validate⟩) := by
  rw [run, Arguments.read_raw hne (fun text htext => (ht text htext).undashed) hw]
  exact Arguments.run_raw ht rfl rfl

/-- Given texts that are sources by themselves and the same options, a run and a request for the
    text come to the same end, unless a name that cannot be compared is to be suggested.  Then both
    fail with the same words, but the service does not blame the texts. -/
theorem agree_iff {tree : FileTree} {texts words : List Text} {all dedupe validate : Bool}
    {request : Request} (hne : texts ≠ []) (ht : ∀ text ∈ texts, IsRaw tree text)
    (hw : words = texts ++ flags all dedupe validate ∨ words = flags all dedupe validate ++ texts)
    (hr : request.Asks ⟨texts, { mergeAll := all, dedupe := dedupe }, validate⟩ .sdl) :
    (Agree (run tree words) (handle request)
        ↔ ¬ Job.OffersOverlong ⟨texts, { mergeAll := all, dedupe := dedupe }, validate⟩)
      ∧ (¬ Agree (run tree words) (handle request) → (run tree words).ending = .exit 1
        ∧ ∃ detail, handle request = .detail 500 (.text detail)
          ∧ (run tree words).errors = "ERROR: " ++ detail ++ "\n") := by
  have hrun := run_texts hne ht hw
  generalize (⟨texts, { mergeAll := all, dedupe := dedupe }, validate⟩ : Job) = job at hr hrun ⊢
  rw [hr.handle_eq, hrun, ← Job.exists_numeral_iff]
  -- both front ends report one result, so it is the result that decides
  cases hresult : job.run with
  | ok s =>
      have hagree : Agree (.ofResult tree (.ok s)) ⟨200, .text s.print⟩ :=
        ⟨⟨fun _ => rfl, fun _ => rfl⟩, fun _ => ⟨s.print, rfl, rfl⟩, fun h => absurd rfl h⟩
      rw [answer_sdl hresult]
      refine ⟨⟨?_, fun _ => hagree⟩, fun h => absurd hagree h⟩
      rintro - ⟨error, h⟩
      cases h
  | error fault =>
      rw [answer_error hresult]
      rcases failureStatus_eq fault with ⟨hstatus, error, hfault⟩ | ⟨hstatus, hfault⟩
      · -- the service breaks, so it cannot have blamed the texts
        have hbroken : ¬ Agree (.ofResult tree (.error fault))
            (.detail (failureStatus fault) (.text fault.message)) :=
          fun hagree => hagree.status_ne hstatus
        refine ⟨⟨fun h => absurd h hbroken, fun h => ?_⟩, fun _ => ⟨rfl, fault.message, ?_, rfl⟩⟩
        · exact absurd ⟨error, congrArg Except.error hfault⟩ h
        · rw [hstatus]
      · have hagree : Agree (.ofResult tree (.error fault))
            (.detail (failureStatus fault) (.text fault.message)) := by
          rw [hstatus]
          refine ⟨⟨?_, ?_⟩, ?_, fun _ => ⟨rfl, fault.message, rfl, rfl⟩⟩
          · intro h
            cases h
          · intro h
            cases h
          · intro h
            cases h
        refine ⟨⟨fun _ => ?_, fun _ => hagree⟩, fun h => absurd hagree h⟩
        rintro ⟨error, h⟩
        exact hfault error (Except.error.inj h)

/-- A type that is stitched and checked. -/
theorem agree_checked :
    let text : Text := "type Query {a: Int}"
    let request := posted text r#","validate":true"#
    [text] ≠ [] ∧ (∀ given ∈ [text], IsRaw ⟨.empty, []⟩ given)
      ∧ request.Asks ⟨[text], {}, true⟩ .sdl
      ∧ Agree (run ⟨.empty, []⟩ [text, "--validate"]) (handle request) := by
  intro text request
  have hne : [text] ≠ [] := List.cons_ne_nil _ _
  have hraw : ∀ given ∈ [text], IsRaw ⟨.empty, []⟩ given :=
    List.forall_mem_singleton.mpr ⟨rfl, rfl, by decide +zetaReduce⟩
  have hasks : request.Asks ⟨[text], {}, true⟩ .sdl :=
    asks_posted (List.all_iff_forall_prop.mp rfl)
  refine ⟨hne, hraw, hasks, (agree_iff hne hraw (.inl rfl) hasks).1.mpr fun hoffers => ?_⟩
  have hrun : (Job.run ⟨[text], {}, true⟩).isOk = true := by decide +kernel +zetaReduce
  obtain ⟨error, herror⟩ := Job.exists_numeral_iff.mpr hoffers
  rw [herror] at hrun
  cases hrun

/-! ## A name that cannot be compared -/

section

variable {digits : Nat}

theorem print_miswritten (digits : Nat) : (miswritten digits).printWithComments
    = "union A" ++ (List.replicate digits '1' ++ (" = a" ++ List.replicate digits '1')) := by
  show UnionType.printBare _ = _
  simp [UnionType.printBare, printDirectives, Text.joinPresent, Text.join, Text.enclose]

theorem isPlain_miswritten (digits : Nat) :
    ∀ c ∈ (miswritten digits).printWithComments, IsPlain c := by
  have hdigits : ∀ c ∈ List.replicate digits '1', IsPlain c := by
    intro c hc
    rw [List.eq_of_mem_replicate hc]
    decide
  rw [print_miswritten]
  refine List.forall_mem_append.mpr ⟨List.all_iff_forall_prop.mp rfl, ?_⟩
  refine List.forall_mem_append.mpr ⟨hdigits, ?_⟩
  exact List.forall_mem_append.mpr ⟨List.all_iff_forall_prop.mp rfl, hdigits⟩

theorem getLast?_miswritten (h : 0 < digits) :
    (miswritten digits).printWithComments.getLast? = some '1' := by
  have hlast : (List.replicate digits '1').getLast? = some '1' := by
    rw [List.getLast?_replicate, if_neg (Nat.ne_of_gt h)]
  rw [print_miswritten, List.getLast?_append, List.getLast?_append, List.getLast?_append, hlast]
  rfl

/-- No path is so long. -/
theorem isRaw_miswritten (tree : FileTree) (h : maximalNumeral < digits) :
    IsRaw tree (miswritten digits).printWithComments := by
  refine ⟨?_, isSchemaName_digit (getLast?_miswritten (Nat.zero_lt_of_lt h)) rfl, ?_⟩
  · have hlong : Path.exceeds Path.longestPath (miswritten digits).printWithComments = true := by
      refine decide_eq_true (Nat.lt_of_lt_of_le ?_ (Utf8.length_le_encode _))
      rw [print_miswritten, List.length_append, List.length_append, List.length_replicate]
      rw [maximalNumeral] at h
      rw [Path.longestPath]
      omega
    rw [FileTree.look?, hlong, Bool.or_true]
    rfl
  · rw [print_miswritten]
    exact fun hdash => by cases hdash

/-- The program blames the union, and the service breaks. -/
theorem run_handle_miswritten (tree : FileTree) (h : maximalNumeral < digits) :
    (run tree [(miswritten digits).printWithComments, "--validate"]).ending = .exit 1
      ∧ (handle (posted (miswritten digits).printWithComments r#","validate":true"#)).status
        = 500 := by
  obtain ⟨error, herror⟩ := Job.exists_numeral_iff.mpr (offersOverlong_miswritten h)
  have hrun : run tree [(miswritten digits).printWithComments, "--validate"]
      = Outcome.ofResult tree (Job.run ⟨[(miswritten digits).printWithComments], {}, true⟩) :=
    run_texts (List.cons_ne_nil _ _) (List.forall_mem_singleton.mpr (isRaw_miswritten tree h))
      (.inl rfl)
  constructor
  · rw [hrun, herror]
    rfl
  · rw [(asks_posted (isPlain_miswritten digits)).handle_eq, answer_error herror]
    rfl

/-- A text that is a source by itself is blamed by the program, and breaks the service. -/
theorem not_agree :
    IsRaw ⟨.empty, []⟩ (miswritten 4301).printWithComments
      ∧ (posted (miswritten 4301).printWithComments r#","validate":true"#).Asks
          ⟨[(miswritten 4301).printWithComments], {}, true⟩ .sdl
      ∧ (handle (posted (miswritten 4301).printWithComments r#","validate":true"#)).status = 500
      ∧ ¬ Agree (run ⟨.empty, []⟩ [(miswritten 4301).printWithComments, "--validate"])
          (handle (posted (miswritten 4301).printWithComments r#","validate":true"#)) := by
  have hlong : maximalNumeral < 4301 := by decide
  have hstatus := (run_handle_miswritten ⟨.empty, []⟩ hlong).2
  refine ⟨isRaw_miswritten _ hlong, asks_posted (isPlain_miswritten 4301), hstatus, ?_⟩
  exact fun hagree => hagree.status_ne hstatus

end

end SchemaStitch

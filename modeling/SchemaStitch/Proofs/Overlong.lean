import SchemaStitch.Job
import SchemaStitch.Proofs.Checked

/-! # Names that cannot be compared

    A message about an unknown name offers names in natural order, and for that digits in a row
    are read as a number.  More of them than a number may have are refused, so the message cannot
    be made although the rule that it is about is broken.  Here is when that happens: a name is
    offered that holds so many digits in a row (`RuleFault.message_isOk_iff`), and checking the
    result of a job comes upon it (`Job.exists_numeral_iff`). -/

namespace SchemaStitch

/-! ## Runs of digits -/

/-- Somewhere in a text more digits follow each other than a number may have. -/
def Text.Overlong : Text → Prop
  | [] => False
  | c :: cs => maximalNumeral < ((c :: cs).takeWhile isDigit).length ∨ Overlong cs

section

variable {inDigits : Bool} {c : Char} {cs run : Text} {runs : List Text}

theorem naturalRuns_ne_nil (inDigits : Bool) (text : Text) : naturalRuns inDigits text ≠ [] := by
  cases text with
  | nil => cases inDigits <;> exact List.cons_ne_nil _ _
  | cons c cs =>
      rw [naturalRuns]
      split
      · split <;> exact List.cons_ne_nil _ _
      · split <;> exact List.cons_ne_nil _ _

/-- A character of the kind that a run is of belongs to it. -/
theorem naturalRuns_cons_of_eq (hc : isDigit c = inDigits)
    (h : naturalRuns inDigits cs = run :: runs) :
    naturalRuns inDigits (c :: cs) = (c :: run) :: runs := by
  rw [naturalRuns, if_pos hc, h]

/-- Before a character of the other kind stands an empty run. -/
theorem naturalRuns_cons_of_ne (hc : isDigit c ≠ inDigits) :
    naturalRuns inDigits (c :: cs) = [] :: naturalRuns (!inDigits) (c :: cs) := by
  have hother : isDigit c = !inDigits := Bool.eq_not_of_ne hc
  obtain ⟨run, runs, h⟩ := List.exists_cons_of_ne_nil (naturalRuns_ne_nil (!inDigits) cs)
  rw [naturalRuns_cons_of_eq hother h, naturalRuns, if_neg hc, h]

/-- The first run of digits is made of the digits at the front. -/
theorem head_naturalRuns (text : Text) :
    ∃ runs, naturalRuns true text = text.takeWhile isDigit :: runs := by
  induction text with
  | nil => exact ⟨[[]], rfl⟩
  | cons c cs ih =>
      obtain ⟨runs, hruns⟩ := ih
      by_cases hc : isDigit c = true
      · rw [List.takeWhile_cons_of_pos hc]
        exact ⟨runs, naturalRuns_cons_of_eq hc hruns⟩
      · rw [List.takeWhile_cons_of_neg hc]
        exact ⟨_, naturalRuns_cons_of_ne hc⟩

/-- Runs can be compared if those of digits are short enough. -/
theorem naturalKeyOf_isOk :
    (naturalKeyOf inDigits (run :: runs)).isOk = true
      ↔ (inDigits = true → run.length ≤ maximalNumeral)
        ∧ (naturalKeyOf (!inDigits) runs).isOk = true := by
  rw [naturalKeyOf]
  split
  · next h =>
      rw [Bool.and_eq_true, decide_eq_true_eq] at h
      constructor
      · intro hok
        cases hok
      · rintro ⟨hlength, -⟩
        exact absurd (hlength h.1) (Nat.not_le.mpr h.2)
  · next h =>
      rw [map_isOk]
      constructor
      · intro hok
        refine ⟨fun hd => ?_, hok⟩
        rw [hd, Bool.true_and, decide_eq_true_eq] at h
        exact Nat.not_lt.mp h
      · rintro ⟨-, hok⟩
        exact hok

/-- A name can be compared iff it holds nowhere too many digits in a row. -/
theorem naturalRuns_isOk (inDigits : Bool) (text : Text) :
    (naturalKeyOf inDigits (naturalRuns inDigits text)).isOk = true ↔ ¬ text.Overlong := by
  induction text generalizing inDigits with
  | nil => cases inDigits <;> exact ⟨fun _ => id, fun _ => rfl⟩
  | cons c cs ih =>
      -- read in the kind of its first character, the text starts with a run that is not empty
      have hsame : (naturalKeyOf (isDigit c) (naturalRuns (isDigit c) (c :: cs))).isOk = true
          ↔ ¬ Text.Overlong (c :: cs) := by
        rw [Text.Overlong, not_or]
        cases hc : isDigit c with
        | true =>
            obtain ⟨runs, hruns⟩ := head_naturalRuns cs
            have hcs := ih true
            rw [hruns, naturalKeyOf_isOk] at hcs
            rw [naturalRuns_cons_of_eq hc hruns, naturalKeyOf_isOk, List.takeWhile_cons_of_pos hc,
              ← hcs, Nat.not_lt]
            constructor
            · rintro ⟨hlength, hrest⟩
              exact ⟨hlength rfl, fun _ => Nat.le_of_succ_le (hlength rfl), hrest⟩
            · rintro ⟨hlength, -, hrest⟩
              exact ⟨fun _ => hlength, hrest⟩
        | false =>
            obtain ⟨run, runs, hruns⟩ := List.exists_cons_of_ne_nil (naturalRuns_ne_nil false cs)
            have hcs := ih false
            rw [hruns, naturalKeyOf_isOk] at hcs
            rw [naturalRuns_cons_of_eq hc hruns, naturalKeyOf_isOk,
              List.takeWhile_cons_of_neg (by simp [hc]), ← hcs]
            simp
      by_cases hc : isDigit c = inDigits
      · rw [← hc]
        exact hsame
      · -- the run before the first character is empty and no matter
        rw [naturalRuns_cons_of_ne hc, naturalKeyOf_isOk, ← Bool.eq_not_of_ne hc, hsame]
        exact ⟨fun h => h.2, fun h => ⟨fun _ => Nat.zero_le _, h⟩⟩

/-- A name can be compared with others unless it is overlong. -/
theorem naturalKey_isOk (name : Text) : (naturalKey name).isOk = true ↔ ¬ name.Overlong :=
  naturalRuns_isOk false name

end

/-! ## Suggestions -/

/-- Names that differ in capital and small letters only are near. -/
theorem editDistance_of_smallLetters {name other : Text}
    (h : name.smallLetters = other.smallLetters) (threshold : Nat) :
    (editDistance threshold name other).isSome = true := by
  rw [editDistance]
  split
  · rfl
  · rfl

theorem mem_distinctNames {name : Text} {names : List Text} :
    name ∈ distinctNames names ↔ name ∈ names := by
  induction names with
  | nil => exact Iff.rfl
  | cons first rest ih =>
      rw [distinctNames, List.mem_cons, List.mem_cons, List.mem_filter, ih]
      by_cases heq : name = first
      · simp [heq]
      · simp [heq]

/-- Names are offered iff none that is near enough holds too many digits in a row. -/
theorem suggestions_isOk {name : Text} {known : List Text} :
    (suggestions name known).isOk = true
      ↔ ∀ other ∈ known, (editDistance (editThreshold name) name other).isSome = true →
        ¬ other.Overlong := by
  -- the distance is there by then, so only the key of a name can fail
  have hkey : ∀ candidate : Text × Nat,
      ((do pure { name := candidate.1, distance := candidate.2, key := ← naturalKey candidate.1 } :
        Except NumeralTooLong Candidate)).isOk = true ↔ ¬ candidate.1.Overlong := by
    intro candidate
    rw [← naturalKey_isOk, bind_pure_isOk]
  have hmap : (suggestions name known).isOk = true
      ↔ (((distinctNames known).filterMap fun other =>
          (editDistance (editThreshold name) name other).map (other, ·)).mapM
        fun candidate => (do
          pure { name := candidate.1, distance := candidate.2, key := ← naturalKey candidate.1 } :
            Except NumeralTooLong Candidate)).isOk = true := by
    rw [suggestions, bind_pure_isOk]
  rw [hmap, mapM_isOk]
  constructor
  · intro h other hother hnear
    obtain ⟨distance, hdistance⟩ := Option.isSome_iff_exists.mp hnear
    refine (hkey (other, distance)).mp (h _ (List.mem_filterMap.mpr ⟨other, ?_, ?_⟩))
    · exact mem_distinctNames.mpr hother
    · rw [hdistance]
      rfl
  · intro h candidate hcandidate
    obtain ⟨other, hother, hnear⟩ := List.mem_filterMap.mp hcandidate
    obtain ⟨distance, hdistance, rfl⟩ := Option.map_eq_some_iff.mp hnear
    refine (hkey _).mpr (h other (mem_distinctNames.mp hother) ?_)
    rw [hdistance]
    rfl

/-! ## Messages -/

namespace RuleFault

/-- The unknown name that a fault is about, and the known names that it may stand for. -/
def suggests? : RuleFault → Option (Text × List Text)
  | unknownType name known => some (name, known)
  | extendsUndefined name known => some (name, known)
  | unknownArgument name _ known => some (name, known)
  | _ => none

/-- A fault about an unknown name for which a name is offered that cannot be compared. -/
def Overlong (fault : RuleFault) : Prop :=
  ∃ name known, fault.suggests? = some (name, known)
    ∧ ∃ other ∈ known, (editDistance (editThreshold name) name other).isSome = true ∧ other.Overlong

/-- There is a message about every other fault. -/
theorem message_isOk_iff (fault : RuleFault) : fault.message.isOk = true ↔ ¬ fault.Overlong := by
  have hsuggest {name : Text} {known : List Text} {f : List Text → Text}
      (h : fault.suggests? = some (name, known)) :
      ((suggestions name known) >>= fun names => (pure (f names) : Except NumeralTooLong Text)).isOk
        = true ↔ ¬ fault.Overlong := by
    rw [bind_pure_isOk, suggestions_isOk, Overlong]
    constructor
    · rintro hall ⟨other, others, hsome, candidate, hcandidate, hnear, hlong⟩
      obtain ⟨rfl, rfl⟩ := Prod.mk.inj (Option.some.inj (h.symm.trans hsome))
      exact hall candidate hcandidate hnear hlong
    · intro hnone candidate hcandidate hnear hlong
      exact hnone ⟨name, known, h, candidate, hcandidate, hnear, hlong⟩
  have hplain (h : fault.suggests? = none) : ¬ fault.Overlong := by
    rintro ⟨name, known, hsome, -⟩
    rw [h] at hsome
    cases hsome
  -- only three kinds of message suggest names; every other one can always be written
  cases fault with
  | unknownType name known => exact hsuggest rfl
  | extendsUndefined name known => exact hsuggest rfl
  | unknownArgument name directive known => exact hsuggest rfl
  | _ => exact ⟨fun _ => hplain rfl, fun _ => rfl⟩

end RuleFault

/-! ## Jobs -/

/-- Building fails behind the rules only, and not for a name that cannot be compared. -/
theorem ValidationError.ofBuildFault_ne_numeral (sources : List Text) (fault : BuildFault)
    (error : NumeralTooLong) : ofBuildFault sources fault ≠ .numeral error := by
  intro h
  rw [ofBuildFault] at h
  split at h
  · cases h
  · cases h

/-- Building a schema fails at a numeral exactly if a message about a broken rule does. -/
theorem Schema.exists_numeral_iff {sources : List Text} {definitions : List Definition} :
    (∃ error, Schema.ofDefinitions sources definitions = .error (.numeral error))
      ↔ (Rules.messages definitions).isOk = false := by
  rw [Schema.ofDefinitions, isOk_eq_false]
  cases Rules.messages definitions with
  | error error =>
      constructor
      · intro _
        exact ⟨error, rfl⟩
      · intro _
        exact ⟨error, rfl⟩
  | ok messages =>
      constructor
      · rintro ⟨error, h⟩
        cases messages with
        | cons message rest => cases h
        | nil =>
            -- the rules are all kept, and building a schema compares no names
            have hbuild : (Schema.build definitions).mapError (ValidationError.ofBuildFault sources)
                = .error (.numeral error) := h
            cases hb : Schema.build definitions with
            | ok schema =>
                rw [hb] at hbuild
                cases hbuild
            | error fault =>
                rw [hb] at hbuild
                have hfault := Except.error.inj hbuild
                exact absurd hfault (ValidationError.ofBuildFault_ne_numeral sources fault error)
      · rintro ⟨error, h⟩
        cases h

/-- Checking ends at a name that cannot be compared iff nothing contradicts itself and a broken
    rule offers such a name. -/
theorem Document.exists_numeral_iff {document : Document} :
    (∃ error, document.validate = .error (.numeral error))
      ↔ document.conflicts = []
        ∧ ∃ fault ∈ Rules.faults document.dedupe.definitions, fault.Overlong := by
  by_cases hconflicts : document.conflicts = []
  · rw [Document.validate_of_conflicts_eq_nil hconflicts, Schema.exists_numeral_iff,
      Rules.messages, and_iff_right hconflicts, ← Bool.not_eq_true, mapM_isOk]
    constructor
    · intro h
      by_contra hnone
      refine h fun fault hfault => (fault.message_isOk_iff).mpr fun hlong => ?_
      exact hnone ⟨fault, hfault, hlong⟩
    · rintro ⟨fault, hfault, hlong⟩ hall
      exact (fault.message_isOk_iff).mp (hall fault hfault) hlong
  · constructor
    · rintro ⟨error, h⟩
      rw [Document.validate_eq_conflicts.mpr ⟨rfl, hconflicts⟩] at h
      cases h
    · rintro ⟨h, -⟩
      exact absurd h hconflicts

namespace Job

variable {job : Job} {s : Stitched} {error : ValidationError}

/-- The result of a job is checked and broken rules offer a name that cannot be compared. -/
structure OffersOverlong (job : Job) : Prop where
  checked : job.validate = true
  offered : ∃ s document, job.stitch = .ok s ∧ Document.parse s.print = .ok document
    ∧ document.conflicts = []
    ∧ ∃ fault ∈ Rules.faults document.dedupe.definitions, fault.Overlong

/-- A stitched job is invalid exactly if its check is. -/
theorem run_eq_invalid (h : job.stitch = .ok s) :
    job.run = .error (.checking (.invalid error)) ↔ job.check s = .error (.invalid error) := by
  rw [run, h]
  show ((job.check s).mapError JobError.checking >>= fun _ => pure s) = _ ↔ _
  cases job.check s with
  | ok value =>
      constructor
      · intro hrun
        cases hrun
      · intro hcheck
        cases hcheck
  | error fault =>
      constructor
      · intro hrun
        exact congrArg _ (JobError.checking.inj (Except.error.inj hrun))
      · intro hcheck
        cases hcheck
        rfl

/-- The check is invalid if it is asked for and the printed result describes no schema. -/
theorem check_eq_invalid : job.check s = .error (.invalid error)
    ↔ job.validate = true ∧ ∃ document, Document.parse s.print = .ok document
      ∧ document.validate = .error error := by
  rw [check]
  -- a job that does not ask for the check never fails it
  cases job.validate with
  | false =>
      constructor
      · intro h
        cases h
      · rintro ⟨h, -⟩
        cases h
  | true =>
      rw [if_pos rfl, and_iff_right rfl]
      cases hparse : Document.parse s.print with
      | error fault =>
          rw [Schema.ofText, hparse]
          constructor
          · intro h
            cases h
          · rintro ⟨document, h, -⟩
            cases h
      | ok document =>
          rw [Schema.ofText_of_parse hparse]
          constructor
          · intro h
            refine ⟨document, rfl, ?_⟩
            cases hv : document.validate with
            | ok schema =>
                rw [hv] at h
                cases h
            | error other =>
                rw [hv] at h
                cases h
                rfl
          · rintro ⟨other, hother, h⟩
            cases hother
            rw [h]
            rfl

/-- A job fails at a numeral exactly if a broken rule has to suggest an overlong name. -/
theorem exists_numeral_iff :
    (∃ error, job.run = .error (.checking (.invalid (.numeral error)))) ↔ job.OffersOverlong := by
  constructor
  · rintro ⟨error, h⟩
    cases hstitch : job.stitch with
    | error fault =>
        rw [run, hstitch] at h
        cases h
    | ok s =>
        obtain ⟨hchecked, document, hparse, hdocument⟩ :=
          check_eq_invalid.mp ((run_eq_invalid hstitch).mp h)
        have hoffered := Document.exists_numeral_iff.mp ⟨error, hdocument⟩
        exact ⟨hchecked, s, document, hstitch, hparse, hoffered⟩
  · rintro ⟨hchecked, s, document, hstitch, hparse, hdocument⟩
    obtain ⟨error, herror⟩ := Document.exists_numeral_iff.mpr hdocument
    refine ⟨error, (run_eq_invalid hstitch).mpr ?_⟩
    exact check_eq_invalid.mpr ⟨hchecked, document, hparse, herror⟩

end Job

/-! ## A name in the wrong letters -/

/-- A union of a type that is not there: its name is that of the union in small letters. -/
def miswritten (digits : Nat) : Definition :=
  .type (.union ⟨none, 'A' :: List.replicate digits '1', [], ['a' :: List.replicate digits '1']⟩)

section

variable {digits : Nat}

theorem isName_replicate {letter : Char} (h : isNameStart letter = true) (digits : Nat) :
    isName (letter :: List.replicate digits '1') = true := by
  rw [isName, h, Bool.true_and, List.all_eq_true]
  intro c hc
  rw [List.eq_of_mem_replicate hc]
  rfl

/-- A letter and too many digits are an overlong name. -/
theorem overlong_replicate (h : maximalNumeral < digits) (letter : Char) :
    Text.Overlong (letter :: List.replicate digits '1') := by
  have hall : (List.replicate digits '1').takeWhile isDigit = List.replicate digits '1' := by
    rw [List.takeWhile_replicate]
    exact if_pos rfl
  cases digits with
  | zero => exact absurd h (Nat.not_lt_zero _)
  | succ more =>
      refine .inr (.inl ?_)
      show _ < ((List.replicate (more + 1) '1').takeWhile isDigit).length
      rw [hall, List.length_replicate]
      exact h

theorem parse_miswritten (digits : Nat) :
    Document.parse (miswritten digits).printWithComments
      = .ok ⟨[.node (miswritten digits)], [(miswritten digits).printWithComments]⟩ := by
  have hwell : (miswritten digits).WellFormed := by
    refine ⟨fun _ h => (by cases h), isName_replicate rfl digits, fun _ h => (by cases h), ?_⟩
    exact List.forall_mem_singleton.mpr (isName_replicate rfl digits)
  have hspells : Spells (miswritten digits).printWithComments
      ([miswritten digits].flatMap Definition.tokens) := by
    rw [List.flatMap_singleton]
    exact hwell.spells .nil
  exact (Document.parse_iff hspells (List.cons_ne_nil _ _) (List.forall_mem_singleton.mpr hwell)
    (List.forall_mem_singleton.mpr rfl)).mpr (.singleton _)

/-- The union names an unknown type, and its own name is offered instead. -/
theorem exists_overlong_miswritten (schema : SchemaBlock) (h : maximalNumeral < digits) :
    ∃ fault ∈ Rules.faults [.schema schema, miswritten digits], fault.Overlong := by
  have hsmall : Text.smallLetters ('a' :: List.replicate digits '1')
      = Text.smallLetters ('A' :: List.replicate digits '1') := rfl
  refine ⟨.unknownType ('a' :: List.replicate digits '1')
    (Builtin.typeNames ++ ['A' :: List.replicate digits '1']), ?_, ?_⟩
  · -- the fault is the last one of the second definition
    refine List.mem_append_right _ (List.mem_append_left _ ?_)
    refine List.mem_append_right _ (List.mem_append_right _ ?_)
    exact List.mem_singleton.mpr rfl
  · refine ⟨_, _, rfl, 'A' :: List.replicate digits '1', ?_, ?_, overlong_replicate h 'A'⟩
    · exact List.mem_append_right _ (List.mem_singleton.mpr rfl)
    · exact editDistance_of_smallLetters hsmall _

/-- A union that names an unknown type, like itself but for one letter, has its own name
    suggested. -/
theorem offersOverlong_miswritten (h : maximalNumeral < digits) :
    Job.OffersOverlong ⟨[(miswritten digits).printWithComments], {}, true⟩ := by
  have hparse := parse_miswritten digits
  have hdefinitions : [(miswritten digits).printWithComments].flatMap definitionsOf
      = [miswritten digits] := by
    rw [List.flatMap_singleton, definitionsOf_eq hparse]
    rfl
  have hparsed : ∀ text ∈ [(miswritten digits).printWithComments],
      ∃ document, Document.parse text = .ok document
        ∧ ∀ d ∈ document.definitions, d.kind ≠ .executable := by
    refine List.forall_mem_singleton.mpr ⟨_, hparse, List.forall_mem_singleton.mpr ?_⟩
    exact fun hkind => by cases hkind
  obtain ⟨sdl, document, hread⟩ := Options.exists_readBack (o := {}) wellFormed_default hparsed
  obtain ⟨schema, -, hchecked⟩ := hread.checked
  obtain ⟨⟨s, documents⟩, hresult, rfl⟩ := map_eq_ok.mp hread.stitched
  rw [hdefinitions] at hchecked
  refine ⟨rfl, s, document, congrArg (Except.map Prod.fst) hresult, hread.parsed, ?_, ?_⟩
  · rw [hread.conflicts, hdefinitions]
    rfl
  · rw [hchecked]
    exact exists_overlong_miswritten schema h

end

end SchemaStitch

import SchemaStitch.CommandLine
import SchemaStitch.Proofs.Answers
import SchemaStitch.Proofs.LastLine
import SchemaStitch.Proofs.Writing

/-! # What a run leaves behind

    A run of the program reads everything before it writes anything.  So it either fails and
    leaves the files and the output alone, or it hands out one text, as output or as the one
    file that is named for it (`CommandLine.run_transacts`).  The text is the same both ways,
    since no stitched text has a line end behind its last line. -/

namespace SchemaStitch

/-! ## Jobs that succeed -/

namespace Job

variable {job : Job} {s : Stitched}

/-- A job that ends well prints what its texts are stitched into. -/
theorem stitchText_of_run (h : job.run = .ok s) :
    job.options.stitchText (job.texts.map .text) = .ok s.print := by
  obtain ⟨stitched, hstitch, h⟩ := bind_eq_ok.mp h
  obtain ⟨_, -, h⟩ := bind_eq_ok.mp h
  obtain rfl := Except.ok.inj h
  obtain ⟨result, hsources, rfl⟩ := map_eq_ok.mp (mapError_eq_ok.mp hstitch)
  exact map_eq_ok.mpr ⟨result, hsources, rfl⟩

/-- The texts of a job that ends well can be read. -/
theorem documents_of_run (h : job.run = .ok s) :
    ∀ text ∈ job.texts, ∃ document, Document.parse text = .ok document := by
  obtain ⟨stitched, hstitch, -⟩ := bind_eq_ok.mp h
  obtain ⟨result, hsources, -⟩ := map_eq_ok.mp (mapError_eq_ok.mp hstitch)
  obtain ⟨documents, hread, -⟩ := bind_eq_ok.mp hsources
  obtain ⟨_, hall, -⟩ := map_eq_ok.mp hread
  exact document_of_readAll (mapError_eq_ok.mp hall)

/-- What a job yields does not end in a line end. -/
theorem endsInLine_of_run (hr : job.options.rootTypes.WellFormed) (h : job.run = .ok s) :
    s.print.EndsInLine := by
  obtain ⟨t, ht, hreadable⟩ := Options.exists_stitched hr (readable_entriesOf (documents_of_run h))
  rw [stitch_of_run h] at ht
  obtain rfl := Except.ok.inj ht
  exact hreadable.endsInLine_print

/-- A job that succeeds although its result is checked succeeds without the check. -/
theorem run_unchecked {texts : List Text} {o : Options} {validate : Bool}
    (h : (⟨texts, o, validate⟩ : Job).run = .ok s) : (⟨texts, o, false⟩ : Job).run = .ok s := by
  obtain ⟨stitched, hstitch, h⟩ := bind_eq_ok.mp h
  obtain ⟨_, -, h⟩ := bind_eq_ok.mp h
  exact bind_eq_ok.mpr ⟨stitched, hstitch, bind_eq_ok.mpr ⟨(), rfl, h⟩⟩

end Job

namespace CommandLine

/-! ## Effects -/

/-- What a run does but for its reports: how it ends, what it prints, and the files behind it. -/
def Outcome.effect (outcome : Outcome) : Ending × Text × FileTree :=
  (outcome.ending, outcome.output, outcome.tree)

/-- What handing a text out does: it is printed, or written to the file that is named. -/
def handOut (output : Text) (tree : FileTree) (text : Text) : Ending × Text × FileTree :=
  if output.isEmpty then (.exit 0, text ++ "\n", tree)
  else
    match tree.write output (Utf8.encode (endLine text)) with
    | .ok changed => (.exit 0, [], changed)
    | .error .nullCharacter => (.broken (PathFault.nullCharacter.message output), [], tree)
    | .error _ => (.exit 1, [], tree)

/-- What is delivered is handed out as the output asks. -/
theorem effect_deliver (arguments : Arguments) (tree : FileTree) (log : Log) (s : Stitched) :
    (deliver arguments tree log s).effect = handOut arguments.output tree s.print := by
  rw [deliver, handOut]
  dsimp only
  split
  · rfl
  · cases tree.write arguments.output (Utf8.encode (endLine s.print)) with
    | ok changed => rfl
    | error fault => cases fault <;> rfl

namespace Arguments

variable {arguments : Arguments} {tree : FileTree} {s : Stitched}

/-- Reports play no part in what a run does. -/
theorem effect_run (arguments : Arguments) (tree : FileTree) :
    (arguments.run tree).effect
      = match arguments.result tree with
        | .error _ => (.exit 1, [], tree)
        | .ok s => handOut arguments.output tree s.print := by
  rw [run]
  cases arguments.result tree with
  | error fault => rfl
  | ok s => exact effect_deliver ..

/-- A result comes from sources that were loaded and a job on them that ended well. -/
theorem result_eq_ok (h : arguments.result tree = .ok s) :
    ∃ texts, tree.loadAll arguments.sources = .ok texts ∧ (arguments.job texts).run = .ok s := by
  obtain ⟨texts, hload, h⟩ := bind_eq_ok.mp h
  exact ⟨texts, mapError_eq_ok.mp hload, mapError_eq_ok.mp h⟩

/-- Without the check the result is the same. -/
theorem result_unchecked (h : arguments.result tree = .ok s) :
    ({ arguments with validate := false } : Arguments).result tree = .ok s := by
  obtain ⟨texts, hload, hrun⟩ := result_eq_ok h
  refine bind_eq_ok.mpr ⟨texts, mapError_eq_ok.mpr hload, ?_⟩
  exact mapError_eq_ok.mpr (Job.run_unchecked hrun)

/-- The printed result lacks a line end, so one is put behind it. -/
theorem endLine_print (h : arguments.result tree = .ok s) : endLine s.print = s.print ++ "\n" := by
  obtain ⟨texts, -, hrun⟩ := result_eq_ok h
  exact if_neg (Job.endsInLine_of_run wellFormed_default hrun).getLast?

/-- A run that succeeds has a result, and no fault stands in the way of handing it out. -/
theorem exists_result (h : (arguments.run tree).ending = .exit 0) :
    ∃ s, arguments.result tree = .ok s
      ∧ (arguments.run tree).effect = handOut arguments.output tree s.print := by
  have heffect := effect_run arguments tree
  cases hresult : arguments.result tree with
  | error fault =>
      rw [hresult] at heffect
      have hending := (congrArg Prod.fst heffect).symm.trans h
      cases hending
  | ok s =>
      rw [hresult] at heffect
      exact ⟨s, rfl, heffect⟩

/-- A run that is given arguments and succeeds: the texts that its sources stand for are stitched
    together, and the result is handed out. -/
structure HandsOut (arguments : Arguments) (tree : FileTree) (outcome : Outcome) (text : Text) :
    Prop where
  stitched : ∃ texts, tree.loadAll arguments.sources = .ok texts
    ∧ arguments.options.stitchText (texts.map .text) = .ok text
  /-- Without a file for it, the text is printed with a line end behind it. -/
  printed : (({ arguments with output := [] } : Arguments).run tree).effect
    = (.exit 0, text ++ "\n", tree)
  unnamed : arguments.output = [] → outcome.output = text ++ "\n" ∧ outcome.tree = tree
  /-- The file that is named for it gets what would have been printed. -/
  named : arguments.output ≠ [] → outcome.output = []
    ∧ tree.Writes arguments.output (Utf8.encode (text ++ "\n")) outcome.tree
  /-- Neither the check nor reports make a difference. -/
  unchecked : (({ arguments with validate := false } : Arguments).run tree).effect
    = outcome.effect

/-- A run that ends with zero has handed out a text. -/
theorem handsOut_run (h : (arguments.run tree).ending = .exit 0) :
    ∃ text, arguments.HandsOut tree (arguments.run tree) text := by
  obtain ⟨s, hresult, heffect⟩ := exists_result h
  obtain ⟨texts, hload, hrun⟩ := result_eq_ok hresult
  have hending := (congrArg Prod.fst heffect).symm.trans h
  have houtput : (arguments.run tree).output = (handOut arguments.output tree s.print).2.1 :=
    congrArg (fun effect => effect.2.1) heffect
  have htree : (arguments.run tree).tree = (handOut arguments.output tree s.print).2.2 :=
    congrArg (fun effect => effect.2.2) heffect
  refine ⟨s.print, ⟨texts, hload, Job.stitchText_of_run hrun⟩, ?_, ?_, ?_, ?_⟩
  · have hsame : ({ arguments with output := [] } : Arguments).result tree = .ok s := hresult
    rw [effect_run, hsame]
    rfl
  · intro hnone
    rw [houtput, htree, hnone]
    exact ⟨rfl, rfl⟩
  · intro hsome
    have hfull : ¬ arguments.output.isEmpty = true := by
      intro hempty
      exact hsome (List.isEmpty_iff.mp hempty)
    rw [houtput, htree]
    rw [handOut, if_neg hfull, endLine_print hresult] at hending ⊢
    -- only writing without a fault ends in success
    split at hending
    · next changed hwrite =>
        exact ⟨rfl, FileTree.writes_of_write hwrite⟩
    · cases hending
    · cases hending
  · rw [effect_run, result_unchecked hresult, heffect]

/-- A run that ends otherwise has printed nothing and left the files alone. -/
theorem unchanged_of_failure (h : (arguments.run tree).ending ≠ .exit 0) :
    (arguments.run tree).output = [] ∧ (arguments.run tree).tree = tree := by
  have heffect := effect_run arguments tree
  have hsplit : ((arguments.run tree).effect.1 = .exit 0)
      ∨ (arguments.run tree).effect.2 = ([], tree) := by
    rw [heffect]
    cases hresult : arguments.result tree with
    | error fault => exact .inr rfl
    | ok s =>
        show (handOut arguments.output tree s.print).1 = .exit 0
          ∨ (handOut arguments.output tree s.print).2 = ([], tree)
        rw [handOut]
        split
        · exact .inl rfl
        · split
          · exact .inl rfl
          · exact .inr rfl
          · exact .inr rfl
  exact Prod.mk.inj (hsplit.resolve_left h)

/-- How much is reported makes no difference to anything else. -/
theorem effect_run_verbosity (arguments : Arguments) (tree : FileTree) (verbosity : Nat) :
    (({ arguments with verbosity := verbosity } : Arguments).run tree).effect
      = (arguments.run tree).effect := by
  rw [effect_run, effect_run]
  rfl

end Arguments

/-! ## Runs -/

/-- A run leaves everything alone, or it shows the help, or it hands a result out. -/
structure Transacts (tree : FileTree) (words : List Text) (outcome : Outcome) : Prop where
  failure : outcome.ending ≠ .exit 0 → outcome.output = [] ∧ outcome.tree = tree
  success : outcome.ending = .exit 0 →
    Arguments.read words = .ok none ∧ outcome.output = help ∧ outcome.tree = tree
    ∨ ∃ arguments text, Arguments.read words = .ok (some arguments)
      ∧ arguments.HandsOut tree outcome text
  reports : ∀ arguments, Arguments.read words = .ok (some arguments) → ∀ verbosity,
    (({ arguments with verbosity := verbosity } : Arguments).run tree).effect = outcome.effect

/-- A run is all or nothing, and the text that it hands out is the same everywhere. -/
theorem run_transacts (tree : FileTree) (words : List Text) :
    Transacts tree words (run tree words) := by
  rw [run]
  cases hread : Arguments.read words with
  | error fault =>
      refine ⟨fun _ => ⟨rfl, rfl⟩, fun h => (by cases h), fun arguments h => ?_⟩
      cases hread.symm.trans h
  | ok asked =>
      cases asked with
      | none =>
          refine ⟨fun h => absurd rfl h, fun _ => .inl ⟨hread, rfl, rfl⟩, fun arguments h => ?_⟩
          cases hread.symm.trans h
      | some arguments =>
          refine ⟨Arguments.unchanged_of_failure, fun h => .inr ?_, fun other hother => ?_⟩
          · obtain ⟨text, htext⟩ := Arguments.handsOut_run h
            exact ⟨arguments, text, hread, htext⟩
          · have hsame := Except.ok.inj (hread.symm.trans hother)
            obtain rfl : arguments = other := Option.some.inj hsame
            exact arguments.effect_run_verbosity tree

end CommandLine

end SchemaStitch

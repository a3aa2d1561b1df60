import SchemaStitch.Stitching
import SchemaStitch.Validation

/-! # Jobs

    A job stitches texts together and, if it is asked to, checks that the result
    describes a schema.  The command line and the service both hand in jobs. -/

namespace SchemaStitch

/-- Texts to stitch together, how to do it, and whether the result is checked. -/
structure Job where
  texts : List Text
  options : Options
  validate : Bool

/-- Why a job fails. -/
inductive JobError
  | stitching (error : StitchError)
  | checking (error : CheckError)
  deriving Repr

/-- The message about a job that fails. -/
def JobError.message : JobError → Text
  | .stitching error => error.message
  | .checking error => error.message

namespace Job

/-- What the texts of a job are stitched into. -/
def stitch (job : Job) : Except StitchError Stitched :=
  (job.options.stitchSources (job.texts.map .text)).map Prod.fst

/-- Check a result if the job asks for it. -/
def check (job : Job) (stitched : Stitched) : Except CheckError Unit :=
  if job.validate then (Schema.ofText stitched.print).map fun _ => () else .ok ()

/-- The result of a job, checked if the job asks for it. -/
def run (job : Job) : Except JobError Stitched := do
  let stitched ← job.stitch.mapError .stitching
  (job.check stitched).mapError .checking
  pure stitched

/-- The report on a job. -/
def log (job : Job) : Log :=
  job.options.sourcesLog (job.texts.map .text) ++
    match job.stitch with
    | .error _ => []
    | .ok stitched => if job.validate then checkLog stitched.print else []

end Job

end SchemaStitch

import SchemaStitch.Conflict
import SchemaStitch.Schema.Place
import SchemaStitch.Schema.Rules
import SchemaStitch.Source

/-! # Validation

    A document is valid if no type contradicts itself, if it breaks no rule once repeated
    members are dropped, and if a schema can be built from it. -/

namespace SchemaStitch

/-- Why a document is not valid. -/
inductive ValidationError
  | conflicts (conflicts : List Conflict)
  | rules (messages : List Text)
  | build (fault : BuildFault)
  | directiveArgument (fault : BuildFault) (excerpt : Text)
  | numeral (error : NumeralTooLong)
  deriving Repr

/-- The message about a document that is not valid. -/
def ValidationError.message : ValidationError → Text
  | .conflicts found =>
      "Conflicting field definitions:\n"
        ++ Text.join "\n" (found.map fun conflict => "  - " ++ conflict.message)
  | .rules messages => Text.join "\n\n" messages
  | .build fault => fault.message
  | .directiveArgument fault excerpt => fault.message ++ "\n\n" ++ excerpt
  | .numeral error => error.message

/-- A fault in building, with an excerpt of the text that the directive to blame was read
    from. -/
def ValidationError.ofBuildFault (sources : List Text) (fault : BuildFault) : ValidationError :=
  match fault.site?.bind fun site => site.excerpt? sources with
  | some excerpt => .directiveArgument fault excerpt
  | none => .build fault

/-- The messages about the rules that definitions break. -/
def Rules.messages (definitions : List Definition) : Except NumeralTooLong (List Text) :=
  (Rules.faults definitions).mapM RuleFault.message

/-- The schema of definitions that contradict nowhere, read from the given texts. -/
def Schema.ofDefinitions (sources : List Text) (definitions : List Definition) :
    Except ValidationError Schema := do
  let messages ← (Rules.messages definitions).mapError .numeral
  if !messages.isEmpty then throw (.rules messages)
  (Schema.build definitions).mapError (.ofBuildFault sources)

/-- The schema of a valid document. -/
def Document.validate (document : Document) : Except ValidationError Schema :=
  if document.conflicts.isEmpty then
    Schema.ofDefinitions document.sources document.dedupe.definitions
  else .error (.conflicts document.conflicts)

/-- The report on validating a document. -/
def Document.validateLog (document : Document) : Log :=
  if document.conflicts.isEmpty then document.dedupeLog else []

/-- Why the schema of a text cannot be had. -/
inductive CheckError
  | malformed (error : SyntaxError)
  | invalid (error : ValidationError)
  deriving Repr

/-- The message about a text without a schema. -/
def CheckError.message : CheckError → Text
  | .malformed error => error.message
  | .invalid error => error.message

/-- The schema of a text. -/
def Schema.ofText (text : Text) : Except CheckError Schema := do
  let document ← (Document.parse text).mapError .malformed
  document.validate.mapError .invalid

/-- The report on having the schema of a text. -/
def checkLog (text : Text) : Log :=
  match Document.parse text with
  | .ok document => document.validateLog
  | .error _ => []

end SchemaStitch

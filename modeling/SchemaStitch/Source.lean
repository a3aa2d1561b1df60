import SchemaStitch.Document.Parser
import SchemaStitch.Log

/-! # Sources

    What is stitched together comes as text that is still to be read, or as a document
    that was read before.  Anything else is refused by the name of its kind. -/

namespace SchemaStitch

/-- Something offered as a source. -/
inductive Source
  | text (text : Text)
  | document (document : Document)
  | other (kind : Text)
  deriving Repr

/-- Why a source has no document. -/
inductive SourceError
  | unsupported (kind : Text)
  | malformed (error : SyntaxError)
  deriving DecidableEq, Repr

/-- The message of a refused source. -/
def SourceError.message : SourceError → Text
  | .unsupported kind =>
      "Schema source must be SDL text or a DocumentNode, got " ++ kind
  | .malformed error => error.message

/-- The document of a source. -/
def Source.read : Source → Except SourceError Document
  | .text content => (Document.parse content).mapError .malformed
  | .document known => .ok known
  | .other kind => .error (.unsupported kind)

/-- The documents of sources, in order; the first source without one decides the
    error. -/
def Source.readAll : List Source → Except SourceError (List Document)
  | [] => .ok []
  | source :: rest => do
      let document ← source.read
      let documents ← Source.readAll rest
      pure (document :: documents)

/-- One document with the entries of several, in order. -/
def Document.concat (documents : List Document) : Document :=
  ⟨documents.flatMap Document.entries, documents.flatMap Document.sources⟩

/-- The report on documents that were read, numbered from `index` on. -/
def readLogFrom (index : Nat) : List Document → Log
  | [] => []
  | document :: rest =>
      ⟨.debug, "Source " ++ Text.ofNat index ++ ": " ++ Text.ofNat document.entries.length
        ++ " definitions"⟩ :: readLogFrom (index + 1) rest

/-- The report on documents that were read. -/
def readLog (documents : List Document) : Log :=
  readLogFrom 0 documents

end SchemaStitch

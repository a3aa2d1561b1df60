import SchemaStitch.Text.Blank
import SchemaStitch.Text.Printable
import SchemaStitch.Text.Utf8
import SchemaStitch.Token
import SchemaStitch.Token.BlockString
import SchemaStitch.Token.Lexer
import SchemaStitch.Listing
import SchemaStitch.Document
import SchemaStitch.Document.Printer
import SchemaStitch.Document.Parser
import SchemaStitch.Comment
import SchemaStitch.Conflict
import SchemaStitch.Stitching
import SchemaStitch.Json.Parser
import SchemaStitch.Service
import SchemaStitch.Main
import SchemaStitch.Schema.Rules
import SchemaStitch.Validation
import SchemaStitch.Proofs.Contents
import SchemaStitch.Proofs.Increment
import SchemaStitch.Proofs.Descriptions
import SchemaStitch.Proofs.Answers
import SchemaStitch.Proofs.Conservation
import SchemaStitch.Proofs.Defaults
import SchemaStitch.Proofs.Offered
import SchemaStitch.Proofs.Declared
import SchemaStitch.Proofs.Documentation
import SchemaStitch.Proofs.FrontEnds
import SchemaStitch.Proofs.Undocumented
import SchemaStitch.Proofs.Absorption
import SchemaStitch.Proofs.Refusals
import SchemaStitch.Proofs.Tokenless
import SchemaStitch.Proofs.Remarks

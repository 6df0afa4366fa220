import RunManifest.Binary64.Basic
import RunManifest.Binary64.Printer
import RunManifest.Binary64.Shortest
import RunManifest.Calendar
import RunManifest.Command.Arguments
import RunManifest.Command.Config
import RunManifest.Command.Identifier
import RunManifest.Command.Inspect
import RunManifest.Command.Invocation
import RunManifest.Command.Paint
import RunManifest.Command.Prepare
import RunManifest.Command.Program
import RunManifest.Command.Usage
import RunManifest.Dictionary
import RunManifest.Document.Format
import RunManifest.Document.Schema
import RunManifest.Instant.Basic
import RunManifest.Instant.Printer
import RunManifest.Instant.Reader
import RunManifest.Json.Basic
import RunManifest.Json.Format
import RunManifest.Json.Literal
import RunManifest.Json.Node
import RunManifest.Json.Printer
import RunManifest.Json.Reader
import RunManifest.Keys
import RunManifest.Kind
import RunManifest.Label
import RunManifest.Log
import RunManifest.Main
import RunManifest.Manifest
import RunManifest.Problem
import RunManifest.Run.Basic
import RunManifest.Run.Metadata
import RunManifest.Run.Spec
import RunManifest.Run.Status
import RunManifest.Table
import RunManifest.Text.ControlSequence
import RunManifest.Text.Digits
import RunManifest.Text.Hidden
import RunManifest.Text.Quoted
import RunManifest.Text.Replace
import RunManifest.Text.Space
import RunManifest.Text.Truncate
import RunManifest.Text.Utf8
import RunManifest.Word64
import RunManifest.Workflow.Identity
import RunManifest.Workflow.Labels
import RunManifest.Workflow.Operation
import RunManifest.Workflow.Parameters
import RunManifest.Workflow.Provenance
import RunManifest.Workflow.State
import RunManifest.Workflow.Substitution
import RunManifest.Yaml.Character
import RunManifest.Yaml.Cursor
import RunManifest.Yaml.Format
import RunManifest.Yaml.Meaning
import RunManifest.Yaml.Node
import RunManifest.Yaml.Printer
import RunManifest.Yaml.Scalar.Block
import RunManifest.Yaml.Scalar.Gap
import RunManifest.Yaml.Scalar.Plain
import RunManifest.Yaml.Scalar.Quoted
import RunManifest.Yaml.Tag
import RunManifest.Yaml.Token
import RunManifest.Proofs.Text.Decimal
import RunManifest.Proofs.Text.Replace
import RunManifest.Proofs.Text.Apart
import RunManifest.Proofs.Json.Tree
import RunManifest.Proofs.Json.Strings
import RunManifest.Proofs.Json.Numbers
import RunManifest.Proofs.Json.Spelling
import RunManifest.Proofs.Document.Outcome
import RunManifest.Proofs.Dictionary
import RunManifest.Proofs.Table
import RunManifest.Proofs.Json.Opaque
import RunManifest.Proofs.Calendar
import RunManifest.Proofs.Instant
import RunManifest.Proofs.Document.Reading
import RunManifest.Proofs.Document.Members
import RunManifest.Proofs.Document.Revision
import RunManifest.Proofs.Document.Restore
import RunManifest.Proofs.Document.Vocabulary
import RunManifest.Proofs.Document.Composition
import RunManifest.Proofs.Document.Separate
import RunManifest.Proofs.Run.Separate
import RunManifest.Proofs.Run.Metadata
import RunManifest.Proofs.Run.Spec
import RunManifest.Proofs.Run.Status
import RunManifest.Proofs.Run.Basic
import RunManifest.Proofs.Run.Clean
import RunManifest.Proofs.Run.Revision
import RunManifest.Proofs.Run.Vocabulary
import RunManifest.Proofs.Workflow.Operation
import RunManifest.Proofs.Json.Replace
import RunManifest.Proofs.Workflow.Substitution
import RunManifest.Proofs.Workflow.Resubmission
import RunManifest.Proofs.Command.Identifier
import RunManifest.Proofs.Workflow.Placeholders
import RunManifest.Proofs.Command.Prepare
import RunManifest.Proofs.Command.Names
import RunManifest.Proofs.Json.Place
import RunManifest.Proofs.Json.Steps
import RunManifest.Proofs.Json.Cut
import RunManifest.Proofs.Document.Cut
import RunManifest.Proofs.Run.Composition
import RunManifest.Proofs.Run.Cut
import RunManifest.Proofs.Text.Utf8
import RunManifest.Proofs.Json.Grammar
import RunManifest.Proofs.Json.Recognition
import RunManifest.Proofs.Json.Order
import RunManifest.Proofs.Document.Order
import RunManifest.Proofs.Document.RecordOrder
import RunManifest.Proofs.Document.Arrangement
import RunManifest.Proofs.Run.Order
import RunManifest.Proofs.Json.Pretty
import RunManifest.Proofs.Text.Hexadecimal
import RunManifest.Proofs.Yaml.Cursor
import RunManifest.Proofs.Yaml.Plain
import RunManifest.Proofs.Yaml.Quoted
import RunManifest.Proofs.Yaml.Literal
import RunManifest.Proofs.Yaml.Lexer
import RunManifest.Proofs.Yaml.Scalars
import RunManifest.Proofs.Yaml.Numbers
import RunManifest.Proofs.Yaml.Printable
import RunManifest.Proofs.Yaml.Tokens
import RunManifest.Proofs.Yaml.Tree
import RunManifest.Proofs.Document.Faithful
import RunManifest.Proofs.Yaml.Reading
import RunManifest.Proofs.Run.Faithful
import RunManifest.Proofs.Manifest
import RunManifest.Proofs.Workflow.Interleaving
import RunManifest.Proofs.Workflow.Corruption
import RunManifest.Proofs.Workflow.Parameters
import RunManifest.Proofs.Binary64
import RunManifest.Proofs.Json.Reread
import RunManifest.Proofs.Run.Reread
import RunManifest.Proofs.Run.Depth
import RunManifest.Proofs.Label
import RunManifest.Proofs.Json.Syntax
import RunManifest.Proofs.Workflow.Provenance
import RunManifest.Proofs.Document.Positional
import RunManifest.Proofs.Gregorian
import RunManifest.Proofs.Run.Positional
import RunManifest.Proofs.CivilTime
import RunManifest.Proofs.Document.Given
import RunManifest.Proofs.Workflow.Completion
import RunManifest.Proofs.Text.Joined
import RunManifest.Proofs.Kind
import RunManifest.Proofs.Text.Truncate
import RunManifest.Proofs.Text.Occurrences
import RunManifest.Proofs.Workflow.ArtifactKey
import RunManifest.Proofs.Command.NameLength

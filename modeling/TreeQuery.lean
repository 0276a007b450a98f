import TreeQuery.Json.Reader
import TreeQuery.Json.Writer
import TreeQuery.Plan.File
import TreeQuery.Plan.Json
import TreeQuery.Proofs.Query.Listing
import TreeQuery.Query
import TreeQuery.Run.Execution
import TreeQuery.Tree.Listing
import TreeQuery.Proofs.Text.Pieces
import TreeQuery.Proofs.Tree.Content
import TreeQuery.Proofs.Document.Nesting
import TreeQuery.Proofs.Document.Verdict
import TreeQuery.Proofs.Written.Reference
import TreeQuery.Proofs.Markup.Ahead
import TreeQuery.Proofs.Written.Construct
import TreeQuery.Proofs.Written.Reading
import TreeQuery.Proofs.Written.Source
import TreeQuery.Proofs.Written.RoundTrip
import TreeQuery.Proofs.Run.Causality
import TreeQuery.Proofs.Dict.Extensionality
import TreeQuery.Proofs.Run.Visible
import TreeQuery.Proofs.Run.Texts
import TreeQuery.Proofs.Document.Insertion
import TreeQuery.Proofs.Path.Display
import TreeQuery.Proofs.Plan.Validity
import TreeQuery.Proofs.Run.Queries
import TreeQuery.Proofs.Run.Outputs
import TreeQuery.Proofs.Markup.Kind
import TreeQuery.Proofs.Document.RootEnd
import TreeQuery.Proofs.Document.Truncation
import TreeQuery.Proofs.Markup.Again
import TreeQuery.Proofs.Markup.Decoding
import TreeQuery.Proofs.Markup.EndTag
import TreeQuery.Proofs.Document.Resuming
import TreeQuery.Proofs.Document.EmptyElement
import TreeQuery.Proofs.Document.DataSection
import TreeQuery.Proofs.Document.Unfinished
import TreeQuery.Proofs.Document.Lockstep
import TreeQuery.Proofs.Path.Reading
import TreeQuery.Proofs.Path.Normal
import TreeQuery.Proofs.Run.Named
import TreeQuery.Proofs.Markup.Within
import TreeQuery.Proofs.Document.Enclosing
import TreeQuery.Proofs.Document.Stripping
import TreeQuery.Proofs.Template.Rest
import TreeQuery.Proofs.Template.TagEnd
import TreeQuery.Proofs.Template.LiteralText
import TreeQuery.Proofs.Template.Placeholder
import TreeQuery.Proofs.Template.Turns
import TreeQuery.Proofs.Template.Filling
import TreeQuery.Proofs.Run.Rendering
import TreeQuery.Proofs.Run.Shortening
import TreeQuery.Proofs.Plan.FirstViolation
import TreeQuery.Proofs.Run.Reports
import TreeQuery.Proofs.Plan.Forms
import TreeQuery.Proofs.Document.LineEndings
import TreeQuery.Proofs.Text.Bytes
import TreeQuery.Proofs.Text.Digits
import TreeQuery.Proofs.Document.FaultPosition
import TreeQuery.Proofs.Document.Turns
import TreeQuery.Proofs.Query.Stack

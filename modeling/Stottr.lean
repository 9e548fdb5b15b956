import Stottr.Output
import Stottr.Output.Pieces
import Stottr.Text.Blocks
import Stottr.Namespaces
import Stottr.Typing
import Stottr.Token.Scan
import Stottr.Document.Error
import Stottr.Document.Parsed
import Stottr.Document.Declaration
import Stottr.Document
import Stottr.Diagnostic
import Stottr.Library
import Stottr.Expansion.Binding
import Stottr.Expansion.Combination
import Stottr.Expansion
import Stottr.Session
import Stottr.Transcript
import Stottr.Disk
import Stottr.Files.System
import Stottr.Files
import Stottr.Yaml.Glyph
import Stottr.Yaml.Scalar
import Stottr.Yaml.BlockScalar
import Stottr.Yaml.Tag
import Stottr.Yaml.Token
import Stottr.Yaml.Layout
import Stottr.Yaml.Node
import Stottr.Yaml.Document
import Stottr.Failure
import Stottr.Command
import Stottr.Main
import Stottr.Proofs.Library.Sources
import Stottr.Proofs.Library.Growth
import Stottr.Proofs.Library.Registration
import Stottr.Proofs.Token.Scans
import Stottr.Proofs.Token.Names
import Stottr.Proofs.Token.Language
import Stottr.Proofs.Token.Printed
import Stottr.Proofs.Token.Absolute
import Stottr.Proofs.Document.Rest
import Stottr.Proofs.Document.Spans
import Stottr.Proofs.Document.Printed
import Stottr.Proofs.Document.Grammar
import Stottr.Proofs.Document.Accepted
import Stottr.Proofs.Document.Proper
import Stottr.Proofs.Document.Absolute
import Stottr.Proofs.Document.Locality
import Stottr.Proofs.Document.Isolation
import Stottr.Proofs.Document.Derived
import Stottr.Proofs.Expansion.Course
import Stottr.Proofs.Expansion.Blame
import Stottr.Proofs.Expansion.Failing
import Stottr.Proofs.Expansion.Compared
import Stottr.Proofs.Expansion.Stable
import Stottr.Proofs.Expansion.WellFormed
import Stottr.Proofs.Expansion.Machine
import Stottr.Proofs.Expansion.Parts
import Stottr.Proofs.Expansion.InRange
import Stottr.Proofs.Expansion.Absent
import Stottr.Proofs.Expansion.Limits
import Stottr.Proofs.Expansion.Cycles
import Stottr.Proofs.Expansion.Dangling
import Stottr.Proofs.Expansion.Combined
import Stottr.Proofs.Naming.Labels
import Stottr.Proofs.Naming.Value
import Stottr.Proofs.Naming.Binding
import Stottr.Proofs.Naming.Rows
import Stottr.Proofs.Naming.Ideal
import Stottr.Proofs.Naming.Order
import Stottr.Proofs.Naming.Faithful
import Stottr.Proofs.Naming.Rescoped
import Stottr.Proofs.Naming.Earlier
import Stottr.Proofs.Naming.Shifted
import Stottr.Proofs.Session.Scopes
import Stottr.Proofs.Session.Replay
import Stottr.Proofs.Session.Blame
import Stottr.Proofs.Session.Faults
import Stottr.Proofs.Session.Workers
import Stottr.Proofs.Document.Ground
import Stottr.Proofs.Document.Prefixes
import Stottr.Proofs.Library.Loading
import Stottr.Proofs.Output.Lines
import Stottr.Proofs.Command.Loading
import Stottr.Proofs.Command.Expanding
import Stottr.Proofs.Output.Triples
import Stottr.Proofs.Output.Json
import Stottr.Proofs.Output.Decoded
import Stottr.Proofs.Expansion.Omitted
import Stottr.Proofs.Token.Tiling
import Stottr.Proofs.Token.Leading
import Stottr.Proofs.Document.Respelled
import Stottr.Proofs.Document.Unplaced
import Stottr.Proofs.Token.Comments
import Stottr.Proofs.Token.Strings
import Stottr.Proofs.Expansion.Subtypes
import Stottr.Proofs.Document.Signature
import Stottr.Proofs.Naming.Defaults
import Stottr.Proofs.Namespaces.Longest
import Stottr.Proofs.Document.WrittenOut
import Stottr.Proofs.Token.Excerpt
import Stottr.Proofs.Document.Extent
import Stottr.Proofs.Document.Excerpt
import Stottr.Proofs.Document.Recovery

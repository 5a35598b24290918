import ThreeAddress.CharClass
import ThreeAddress.Command.Batch
import ThreeAddress.Command.Conversation
import ThreeAddress.Command.FileTree
import ThreeAddress.Command.Flags
import ThreeAddress.Command.Path
import ThreeAddress.Command.Run
import ThreeAddress.Command.World
import ThreeAddress.Diagnostic
import ThreeAddress.Failure
import ThreeAddress.Main
import ThreeAddress.Numbering
import ThreeAddress.Proofs.Acceptance
import ThreeAddress.Proofs.AnyStream
import ThreeAddress.Proofs.BatchRun
import ThreeAddress.Proofs.Blocks
import ThreeAddress.Proofs.Code
import ThreeAddress.Proofs.Course
import ThreeAddress.Proofs.Decision.Basic
import ThreeAddress.Proofs.Decision.Expression
import ThreeAddress.Proofs.Decision.Program
import ThreeAddress.Proofs.Delivery
import ThreeAddress.Proofs.Emission
import ThreeAddress.Proofs.Fate
import ThreeAddress.Proofs.Feed
import ThreeAddress.Proofs.FeedQueue
import ThreeAddress.Proofs.Format
import ThreeAddress.Proofs.Fuel
import ThreeAddress.Proofs.Grammar
import ThreeAddress.Proofs.Idempotence
import ThreeAddress.Proofs.Independence
import ThreeAddress.Proofs.Interruption
import ThreeAddress.Proofs.LabelUse
import ThreeAddress.Proofs.Labels
import ThreeAddress.Proofs.Layout
import ThreeAddress.Proofs.Lexeme
import ThreeAddress.Proofs.LineReplies
import ThreeAddress.Proofs.Linearity
import ThreeAddress.Proofs.Lookahead
import ThreeAddress.Proofs.Machine
import ThreeAddress.Proofs.Meaning
import ThreeAddress.Proofs.Numbered
import ThreeAddress.Proofs.Operands
import ThreeAddress.Proofs.Overwriting
import ThreeAddress.Proofs.Parallel
import ThreeAddress.Proofs.Places
import ThreeAddress.Proofs.Preservation
import ThreeAddress.Proofs.Printing
import ThreeAddress.Proofs.QuadResolution
import ThreeAddress.Proofs.Reading
import ThreeAddress.Proofs.Recognition
import ThreeAddress.Proofs.Rendering
import ThreeAddress.Proofs.Reports
import ThreeAddress.Proofs.Rescanning
import ThreeAddress.Proofs.Resolution
import ThreeAddress.Proofs.Resolved
import ThreeAddress.Proofs.ResolvedLines
import ThreeAddress.Proofs.ScanLoop
import ThreeAddress.Proofs.Scanning
import ThreeAddress.Proofs.Script
import ThreeAddress.Proofs.Segmentation
import ThreeAddress.Proofs.Segments
import ThreeAddress.Proofs.Separators
import ThreeAddress.Proofs.Session
import ThreeAddress.Proofs.Simulation.Expression
import ThreeAddress.Proofs.Simulation.Statement
import ThreeAddress.Proofs.SourceLines
import ThreeAddress.Proofs.Stretches
import ThreeAddress.Proofs.Submissions
import ThreeAddress.Proofs.Syntax
import ThreeAddress.Proofs.Targets
import ThreeAddress.Proofs.Temporaries
import ThreeAddress.Proofs.Termination
import ThreeAddress.Proofs.Unambiguity
import ThreeAddress.Proofs.Warnings
import ThreeAddress.Proofs.WhiteSpace
import ThreeAddress.Proofs.WriteLimit
import ThreeAddress.Quad.Basic
import ThreeAddress.Quad.Emitter
import ThreeAddress.Quad.Names
import ThreeAddress.Quad.Resolve
import ThreeAddress.Scan.Cursor
import ThreeAddress.Scan.Machine
import ThreeAddress.Scan.Scanner
import ThreeAddress.Scan.State
import ThreeAddress.Source.Basic
import ThreeAddress.Source.TextLines
import ThreeAddress.Text.Blank
import ThreeAddress.Text.Bytes
import ThreeAddress.Text.Printable
import ThreeAddress.Text.Quoted
import ThreeAddress.Text.Split
import ThreeAddress.Text.Split.RoundTrip
import ThreeAddress.Text.Utf8
import ThreeAddress.Text.Utf8.Boundary
import ThreeAddress.Text.Utf8.RoundTrip
import ThreeAddress.Token.Basic
import ThreeAddress.Token.Keyword
import ThreeAddress.Token.Kind
import ThreeAddress.Token.Stream
import ThreeAddress.Translator.Basic
import ThreeAddress.Translator.Dialogue
import ThreeAddress.Translator.Grammar

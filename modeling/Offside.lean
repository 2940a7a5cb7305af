import Offside.CommandLine.Arguments
import Offside.CommandLine.Batch
import Offside.CommandLine.Settings
import Offside.Comment
import Offside.Compilation
import Offside.Decimal.Binary
import Offside.Decimal.Shortest
import Offside.Diagnostic
import Offside.Editor
import Offside.FileSystem
import Offside.FileSystem.Search
import Offside.Group
import Offside.Indentation
import Offside.Line
import Offside.Literal
import Offside.Main
import Offside.NamePattern
import Offside.Outline
import Offside.Outline.Listing
import Offside.Outline.Reader
import Offside.Path
import Offside.Proofs.Balance
import Offside.Proofs.Caret
import Offside.Proofs.Collapsing
import Offside.Proofs.Collisions
import Offside.Proofs.Concatenation
import Offside.Proofs.Conservation
import Offside.Proofs.Counting
import Offside.Proofs.Culprit
import Offside.Proofs.Datum
import Offside.Proofs.Descent
import Offside.Proofs.Discovery
import Offside.Proofs.Effects
import Offside.Proofs.Encoding
import Offside.Proofs.Endings
import Offside.Proofs.FirstFault
import Offside.Proofs.FixedPoints
import Offside.Proofs.Folding
import Offside.Proofs.Forest
import Offside.Proofs.FrontEnds
import Offside.Proofs.Grouping
import Offside.Proofs.Headers
import Offside.Proofs.Likeness
import Offside.Proofs.LineBreaks
import Offside.Proofs.MaskLaws
import Offside.Proofs.Masking
import Offside.Proofs.Meaning
import Offside.Proofs.Naming
import Offside.Proofs.Obstacles
import Offside.Proofs.Omission
import Offside.Proofs.Overwriting
import Offside.Proofs.Placement
import Offside.Proofs.Provenance
import Offside.Proofs.Reading
import Offside.Proofs.Recovery
import Offside.Proofs.Reindentation
import Offside.Proofs.Rerunning
import Offside.Proofs.Resolution
import Offside.Proofs.Scanning
import Offside.Proofs.Signal
import Offside.Proofs.Spelling
import Offside.Proofs.Stepping
import Offside.Proofs.Storage
import Offside.Proofs.Turn
import Offside.Proofs.Wrapping
import Offside.Record
import Offside.Text
import Offside.Text.Blank
import Offside.Text.Digit
import Offside.Text.Printable
import Offside.Text.Quoted
import Offside.Text.Ranges
import Offside.Text.Utf8
import Offside.Token
import Offside.Toml.Document
import Offside.Toml.Fault
import Offside.Toml.Scalar
import Offside.Toml.Value

import ReversePolish.Artifact
import ReversePolish.Command.Arguments
import ReversePolish.Command.Basic
import ReversePolish.Command.Execution
import ReversePolish.Command.Settings
import ReversePolish.Compilation.Basic
import ReversePolish.Compilation.Batch
import ReversePolish.Decimal.Binary64
import ReversePolish.Decimal.Layout
import ReversePolish.Decimal.Reading
import ReversePolish.Decimal.Shortest
import ReversePolish.Emission
import ReversePolish.Fault
import ReversePolish.Files.Basic
import ReversePolish.Files.Tree
import ReversePolish.Forest.Basic
import ReversePolish.Forest.Parser
import ReversePolish.Fragment
import ReversePolish.Journal
import ReversePolish.Json.Basic
import ReversePolish.Json.Reader
import ReversePolish.Json.Token
import ReversePolish.Json.Writer
import ReversePolish.Machine.Basic
import ReversePolish.Machine.Number
import ReversePolish.Main
import ReversePolish.Mapping
import ReversePolish.Path
import ReversePolish.Position
import ReversePolish.Program.Basic
import ReversePolish.Program.Reading
import ReversePolish.Program.Session
import ReversePolish.Proofs.ArtifactPaths
import ReversePolish.Proofs.ArtifactReferences
import ReversePolish.Proofs.Batch
import ReversePolish.Proofs.CallReading
import ReversePolish.Proofs.CodeReading
import ReversePolish.Proofs.Cutting
import ReversePolish.Proofs.Decoding
import ReversePolish.Proofs.DecodingRange
import ReversePolish.Proofs.DepthLimit
import ReversePolish.Proofs.EarliestFault
import ReversePolish.Proofs.Emission
import ReversePolish.Proofs.Execution
import ReversePolish.Proofs.FailureTrace
import ReversePolish.Proofs.FaultOrigin
import ReversePolish.Proofs.FragmentWriting
import ReversePolish.Proofs.JsonRoundTrip
import ReversePolish.Proofs.Language
import ReversePolish.Proofs.Layout
import ReversePolish.Proofs.Lookup
import ReversePolish.Proofs.Numbering
import ReversePolish.Proofs.ParserUse
import ReversePolish.Proofs.Parsing
import ReversePolish.Proofs.Paths
import ReversePolish.Proofs.PreambleReading
import ReversePolish.Proofs.Preservation
import ReversePolish.Proofs.Printing
import ReversePolish.Proofs.Recognition
import ReversePolish.Proofs.RunningSums
import ReversePolish.Proofs.ScannerUse
import ReversePolish.Proofs.Scanning
import ReversePolish.Proofs.Segmentation
import ReversePolish.Proofs.Sentence
import ReversePolish.Proofs.StackBound
import ReversePolish.Proofs.StackDiscipline
import ReversePolish.Proofs.StackNeed
import ReversePolish.Proofs.TableRoundTrip
import ReversePolish.Proofs.TreeFrame
import ReversePolish.Proofs.Vlq
import ReversePolish.Proofs.VlqPrecision
import ReversePolish.Settings.Basic
import ReversePolish.Settings.Reading
import ReversePolish.SourceFault
import ReversePolish.SourceMap.Basic
import ReversePolish.SourceMap.Table
import ReversePolish.SourceMap.Text
import ReversePolish.SourceMap.Vlq
import ReversePolish.Term.Basic
import ReversePolish.Term.Class
import ReversePolish.Term.Scanner
import ReversePolish.Text.Blank
import ReversePolish.Text.Escaped
import ReversePolish.Text.Extender
import ReversePolish.Text.Printable
import ReversePolish.Text.Split
import ReversePolish.Text.Units
import ReversePolish.Toml.Basic
import ReversePolish.Toml.Moment
import ReversePolish.Toml.Number
import ReversePolish.Toml.Reader
import ReversePolish.Toml.Token

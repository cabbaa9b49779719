import InterfaceProbe.CommandLine.Arguments
import InterfaceProbe.CommandLine.Run
import InterfaceProbe.Decimal.Binary64
import InterfaceProbe.Decimal.Numeral
import InterfaceProbe.Decimal.Shortest
import InterfaceProbe.Files.Error
import InterfaceProbe.Files.Operations
import InterfaceProbe.Files.PathName
import InterfaceProbe.Files.Tree
import InterfaceProbe.Host.Basic
import InterfaceProbe.Host.Tools
import InterfaceProbe.Json.Basic
import InterfaceProbe.Json.Fault
import InterfaceProbe.Json.Number
import InterfaceProbe.Json.Printer
import InterfaceProbe.Json.Quoted
import InterfaceProbe.Json.Reader
import InterfaceProbe.Json.Skip
import InterfaceProbe.Json.Text
import InterfaceProbe.Json.Value
import InterfaceProbe.Main
import InterfaceProbe.Model.Basic
import InterfaceProbe.Model.Imports
import InterfaceProbe.Model.Spelling
import InterfaceProbe.Pipeline.Error
import InterfaceProbe.Pipeline.InMemory
import InterfaceProbe.Pipeline.Reflect
import InterfaceProbe.Pipeline.Session
import InterfaceProbe.Pipeline.Site
import InterfaceProbe.Pipeline.Workspace
import InterfaceProbe.Probe.Program
import InterfaceProbe.Proofs.CommandLine.Delivery
import InterfaceProbe.Proofs.CommandLine.Symbols
import InterfaceProbe.Proofs.Files.Changes
import InterfaceProbe.Proofs.Files.Directories
import InterfaceProbe.Proofs.Files.LastComponents
import InterfaceProbe.Proofs.Files.Remains
import InterfaceProbe.Proofs.Files.SameEntries
import InterfaceProbe.Proofs.Files.Walking
import InterfaceProbe.Proofs.Host.Executables
import InterfaceProbe.Proofs.Json.Compact
import InterfaceProbe.Proofs.Json.Containers
import InterfaceProbe.Proofs.Json.Grammar
import InterfaceProbe.Proofs.Json.Indented
import InterfaceProbe.Proofs.Json.NumberLiteral
import InterfaceProbe.Proofs.Json.Printable
import InterfaceProbe.Proofs.Json.Reading
import InterfaceProbe.Proofs.Json.Skipped
import InterfaceProbe.Proofs.Json.StringLiteral
import InterfaceProbe.Proofs.Json.WellFormed
import InterfaceProbe.Proofs.Json.WholeValue
import InterfaceProbe.Proofs.Model.AsRead
import InterfaceProbe.Proofs.Model.ImportDependence
import InterfaceProbe.Proofs.Model.ImportedPaths
import InterfaceProbe.Proofs.Model.Lexemes
import InterfaceProbe.Proofs.Model.Openings
import InterfaceProbe.Proofs.Model.Outline
import InterfaceProbe.Proofs.Model.ReadBack
import InterfaceProbe.Proofs.Model.SignatureReadBack
import InterfaceProbe.Proofs.Model.SignatureReading
import InterfaceProbe.Proofs.Model.Structure
import InterfaceProbe.Proofs.Model.TypeReading
import InterfaceProbe.Proofs.Model.UniqueReading
import InterfaceProbe.Proofs.Model.Words
import InterfaceProbe.Proofs.Pipeline.Attempts
import InterfaceProbe.Proofs.Pipeline.Building
import InterfaceProbe.Proofs.Pipeline.CallOrder
import InterfaceProbe.Proofs.Pipeline.Discarding
import InterfaceProbe.Proofs.Pipeline.InMemoryTools
import InterfaceProbe.Proofs.Pipeline.Jobs
import InterfaceProbe.Proofs.Pipeline.Residue
import InterfaceProbe.Proofs.Pipeline.Sessions
import InterfaceProbe.Proofs.Pipeline.Steps
import InterfaceProbe.Proofs.Probe.Containment
import InterfaceProbe.Proofs.Probe.Layout
import InterfaceProbe.Proofs.Probe.Literals
import InterfaceProbe.Proofs.Probe.Recovery
import InterfaceProbe.Proofs.Probe.Tokens
import InterfaceProbe.Proofs.Report.GridReading
import InterfaceProbe.Proofs.Report.MethodTable
import InterfaceProbe.Proofs.Text.Joined
import InterfaceProbe.Proofs.Text.Trimming
import InterfaceProbe.Proofs.Wire.Agreement
import InterfaceProbe.Proofs.Wire.ArrayLengths
import InterfaceProbe.Proofs.Wire.BothReadings
import InterfaceProbe.Proofs.Wire.Changes
import InterfaceProbe.Proofs.Wire.CompactForm
import InterfaceProbe.Proofs.Wire.CutOff
import InterfaceProbe.Proofs.Wire.Denoted
import InterfaceProbe.Proofs.Wire.Drafts
import InterfaceProbe.Proofs.Wire.EverySpelling
import InterfaceProbe.Proofs.Wire.FewerLevels
import InterfaceProbe.Proofs.Wire.FirstSentinel
import InterfaceProbe.Proofs.Wire.Framing
import InterfaceProbe.Proofs.Wire.Identification
import InterfaceProbe.Proofs.Wire.IndentedForm
import InterfaceProbe.Proofs.Wire.Meaning
import InterfaceProbe.Proofs.Wire.Mutations
import InterfaceProbe.Proofs.Wire.Outcomes
import InterfaceProbe.Proofs.Wire.PartReading
import InterfaceProbe.Proofs.Wire.Places
import InterfaceProbe.Proofs.Wire.ReadingAround
import InterfaceProbe.Proofs.Wire.RecordText
import InterfaceProbe.Proofs.Wire.Rewriting
import InterfaceProbe.Proofs.Wire.RoundTrip
import InterfaceProbe.Proofs.Wire.Slots
import InterfaceProbe.Proofs.Wire.SpelledValues
import InterfaceProbe.Proofs.Wire.Spelling
import InterfaceProbe.Proofs.Wire.TextPlaces
import InterfaceProbe.Proofs.Wire.TextReading
import InterfaceProbe.Proofs.Wire.TreeReading
import InterfaceProbe.Proofs.Wire.Verdicts
import InterfaceProbe.Report.Grid
import InterfaceProbe.Report.Package
import InterfaceProbe.Text.Blank
import InterfaceProbe.Text.CharRange
import InterfaceProbe.Text.Debug
import InterfaceProbe.Text.Lines
import InterfaceProbe.Text.Pieces
import InterfaceProbe.Text.Separated
import InterfaceProbe.Text.Unprintable
import InterfaceProbe.Text.Width
import InterfaceProbe.Wire.Frame
import InterfaceProbe.Wire.Record
import InterfaceProbe.Wire.Stream
import InterfaceProbe.Wire.Tree
import InterfaceProbe.Wire.Writer

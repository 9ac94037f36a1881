import SectScript.Arithmetic
import SectScript.Clock
import SectScript.CommandLine
import SectScript.Condition
import SectScript.Dialect
import SectScript.Dialect.Selection
import SectScript.Error
import SectScript.Error.Report
import SectScript.Event
import SectScript.Event.Dump
import SectScript.Event.Journal
import SectScript.Expression
import SectScript.Files
import SectScript.Input
import SectScript.Launch
import SectScript.Loading
import SectScript.Machine
import SectScript.Main
import SectScript.Node
import SectScript.Output
import SectScript.Program
import SectScript.Session
import SectScript.Settings
import SectScript.Settings.Document
import SectScript.Settings.Flag
import SectScript.Statement
import SectScript.Table
import SectScript.Text.Blank
import SectScript.Text.Bytes
import SectScript.Text.Category
import SectScript.Text.Columns
import SectScript.Text.Decimal
import SectScript.Text.Double
import SectScript.Text.Fraction
import SectScript.Text.Numeral
import SectScript.Text.Quoted
import SectScript.Text.Utf8
import SectScript.Usage
import SectScript.Value
import SectScript.Yaml.Comment
import SectScript.Yaml.Datum
import SectScript.Yaml.Datum.OfTree
import SectScript.Yaml.Feed
import SectScript.Yaml.Key
import SectScript.Yaml.Meaning
import SectScript.Yaml.Place
import SectScript.Yaml.Problem
import SectScript.Yaml.Scalar
import SectScript.Yaml.Scan
import SectScript.Yaml.Scan.Blank
import SectScript.Yaml.Scan.Next
import SectScript.Yaml.Source
import SectScript.Yaml.Timestamp
import SectScript.Yaml.Token
import SectScript.Yaml.Tree
import SectScript.Proofs.Text.Search
import SectScript.Proofs.Text.Blank
import SectScript.Proofs.Table
import SectScript.Proofs.Statement.Word
import SectScript.Proofs.Statement.Form
import SectScript.Proofs.Statement.Comparison
import SectScript.Proofs.Statement.Phrase
import SectScript.Proofs.Statement.RoundTrip
import SectScript.Proofs.Machine.Step
import SectScript.Proofs.Machine.Visit
import SectScript.Proofs.Machine.Definition
import SectScript.Proofs.Machine.Location
import SectScript.Proofs.Loading.Section
import SectScript.Proofs.Loading.Scan
import SectScript.Proofs.Loading.Grammar
import SectScript.Proofs.Loading.Location
import SectScript.Proofs.Machine.Lockstep
import SectScript.Proofs.Machine.Restriction
import SectScript.Proofs.Machine.Natural
import SectScript.Proofs.Machine.Invariant
import SectScript.Proofs.Machine.Termination
import SectScript.Proofs.Strict.Statement
import SectScript.Proofs.Integrity
import SectScript.Proofs.Launch.Observers
import SectScript.Proofs.Machine.Parallel
import SectScript.Proofs.Machine.Inlining
import SectScript.Proofs.Loading.Block
import SectScript.Proofs.Launch.Outcome
import SectScript.Proofs.Arithmetic
import SectScript.Proofs.Loading.Visit
import SectScript.Proofs.Interruption
import SectScript.Proofs.Machine.Journal
import SectScript.Proofs.Statement.Within
import SectScript.Proofs.Tidy
import SectScript.Proofs.Text.Order
import SectScript.Proofs.Number
import SectScript.Proofs.Condition
import SectScript.Proofs.Expression
import SectScript.Proofs.Computation
import SectScript.Proofs.Machine.Atomic
import SectScript.Proofs.Text.Line
import SectScript.Proofs.Text.Padding
import SectScript.Proofs.Table.Order
import SectScript.Proofs.Table.Tree
import SectScript.Proofs.Loading.Indentation
import SectScript.Proofs.Loading.Listing
import SectScript.Proofs.Machine.Reading
import SectScript.Proofs.Settings.Precedence
import SectScript.Proofs.Machine.Reference
import SectScript.Proofs.Statement.Division
import SectScript.Proofs.Stream
import SectScript.Proofs.Launch.Listing
import SectScript.Proofs.Selection
import SectScript.Proofs.Settings.Watched
import SectScript.Proofs.Statement.Occurrence

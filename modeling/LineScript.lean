import LineScript.Block
import LineScript.Block.Outline
import LineScript.Block.Store
import LineScript.Block.Text
import LineScript.Build
import LineScript.Chain
import LineScript.CommandLine.Options
import LineScript.CommandLine.Run
import LineScript.CommandLine.Table
import LineScript.Compile
import LineScript.Diagnostic
import LineScript.Disk
import LineScript.Disk.Pattern
import LineScript.Fault
import LineScript.Json
import LineScript.Json.Read
import LineScript.Kind
import LineScript.Layout
import LineScript.Line.Classify
import LineScript.Line.Construct
import LineScript.Line.Grammar
import LineScript.Line.Phrase
import LineScript.Line.Word
import LineScript.Literal
import LineScript.Literal.Initial
import LineScript.Location
import LineScript.Main
import LineScript.Path
import LineScript.Perl.Quoted
import LineScript.Program
import LineScript.Proofs.Alike
import LineScript.Proofs.Arguments
import LineScript.Proofs.BlankLines
import LineScript.Proofs.Bound
import LineScript.Proofs.Brackets
import LineScript.Proofs.Branches
import LineScript.Proofs.Built
import LineScript.Proofs.Chains
import LineScript.Proofs.Changes
import LineScript.Proofs.Collected
import LineScript.Proofs.Comments
import LineScript.Proofs.Composed
import LineScript.Proofs.Conditions
import LineScript.Proofs.Constructs
import LineScript.Proofs.Declarations
import LineScript.Proofs.Disks
import LineScript.Proofs.Echoes
import LineScript.Proofs.Echoing
import LineScript.Proofs.Edits
import LineScript.Proofs.Enclosed
import LineScript.Proofs.Endless
import LineScript.Proofs.Expressions
import LineScript.Proofs.Failure
import LineScript.Proofs.Fillers
import LineScript.Proofs.Flush
import LineScript.Proofs.Forest
import LineScript.Proofs.Frames
import LineScript.Proofs.Gaps
import LineScript.Proofs.Handlers
import LineScript.Proofs.Imports
import LineScript.Proofs.Indentation
import LineScript.Proofs.InnerScopes
import LineScript.Proofs.Inputs
import LineScript.Proofs.Laid
import LineScript.Proofs.LaidOut
import LineScript.Proofs.Leaves
import LineScript.Proofs.Lines
import LineScript.Proofs.Linked
import LineScript.Proofs.Links
import LineScript.Proofs.Literals
import LineScript.Proofs.LoopNames
import LineScript.Proofs.Moved
import LineScript.Proofs.Moves
import LineScript.Proofs.Nesting
import LineScript.Proofs.Outputs
import LineScript.Proofs.Phrases
import LineScript.Proofs.Places
import LineScript.Proofs.Plain
import LineScript.Proofs.Quotes
import LineScript.Proofs.Reads
import LineScript.Proofs.Refusals
import LineScript.Proofs.Rendering
import LineScript.Proofs.Replay
import LineScript.Proofs.Reported
import LineScript.Proofs.Rereading
import LineScript.Proofs.Results
import LineScript.Proofs.Returns
import LineScript.Proofs.Runs
import LineScript.Proofs.Scoping
import LineScript.Proofs.Settled
import LineScript.Proofs.Shifted
import LineScript.Proofs.Snapshots
import LineScript.Proofs.Spaced
import LineScript.Proofs.Statements
import LineScript.Proofs.Steady
import LineScript.Proofs.Stored
import LineScript.Proofs.Success
import LineScript.Proofs.Tables
import LineScript.Proofs.Tails
import LineScript.Proofs.Tree
import LineScript.Proofs.TrimmedLines
import LineScript.Proofs.Unclosed
import LineScript.Proofs.Uses
import LineScript.Proofs.Written
import LineScript.Report
import LineScript.Report.Collection
import LineScript.Report.Pretty
import LineScript.Scope
import LineScript.Scope.Resolve
import LineScript.Script
import LineScript.Settings
import LineScript.Settings.Load
import LineScript.Statement
import LineScript.Text.Blank
import LineScript.Text.Lines
import LineScript.Text.Name
import LineScript.Text.Printable
import LineScript.Text.Quoting
import LineScript.Text.Ranges
import LineScript.Text.Shown
import LineScript.Text.Width
import LineScript.Text.Width.Char
import LineScript.Text.Width.Emoji
import LineScript.Text.Width.Ligature
import LineScript.Value
import LineScript.Value.Expression
import LineScript.Value.Typing
import LineScript.Proofs.Labels
import LineScript.Proofs.Outlines
import LineScript.Proofs.Extraction
import LineScript.Proofs.Preambles
import LineScript.Proofs.ExitCodes
import LineScript.Proofs.ScopePaths

import TsxLint.Command.Arguments
import TsxLint.Command.Check
import TsxLint.Command.Fix
import TsxLint.Command.Listing
import TsxLint.Command.Program
import TsxLint.Command.Request
import TsxLint.Command.Shell
import TsxLint.Command.Workspace
import TsxLint.Diff.Matching
import TsxLint.Diff.Unified
import TsxLint.Edit.Basic
import TsxLint.Edit.Selection
import TsxLint.Edit.Splice
import TsxLint.Engine.Fix
import TsxLint.Engine.Registry
import TsxLint.Engine.Run
import TsxLint.Engine.Session
import TsxLint.Engine.TreeSupply
import TsxLint.Fault
import TsxLint.Finding.Basic
import TsxLint.Finding.Record
import TsxLint.Finding.Report
import TsxLint.Imports.Group
import TsxLint.Imports.Merge
import TsxLint.Json.Reader
import TsxLint.Json.Writer
import TsxLint.Log.Entry
import TsxLint.Log.Level
import TsxLint.Log.Setup
import TsxLint.Log.Template
import TsxLint.Log.TemplateError
import TsxLint.Main
import TsxLint.Number.Binary64
import TsxLint.Number.Decimal
import TsxLint.Number.Literal
import TsxLint.Rule.Basic
import TsxLint.Rule.Scripted
import TsxLint.Rule.Traversal
import TsxLint.Rules.ArrowBody
import TsxLint.Rules.Catalog
import TsxLint.Rules.ClassNames
import TsxLint.Rules.ComponentTypes
import TsxLint.Rules.DefaultProps
import TsxLint.Rules.Imports
import TsxLint.Rules.RawElements
import TsxLint.Rules.SiblingSpacing
import TsxLint.Rules.Wrapper
import TsxLint.Settings.Basic
import TsxLint.Settings.Layers
import TsxLint.Settings.Record
import TsxLint.Severity
import TsxLint.Source.File
import TsxLint.Source.Model
import TsxLint.Source.Node
import TsxLint.Source.Path
import TsxLint.Source.Position
import TsxLint.Source.Tree
import TsxLint.Source.TreeRecord
import TsxLint.Table
import TsxLint.Terminal.Problem
import TsxLint.Terminal.Reporter
import TsxLint.Terminal.Style
import TsxLint.Text.Blank
import TsxLint.Text.Digit
import TsxLint.Text.Identifier
import TsxLint.Text.Lowercase
import TsxLint.Text.Printable
import TsxLint.Text.Quoted
import TsxLint.Text.Ranges
import TsxLint.Text.Uppercase
import TsxLint.Text.Utf8
import TsxLint.Value.Basic
import TsxLint.Value.Display
import TsxLint.Value.Equal
import TsxLint.Value.Options
import TsxLint.Value.Order
import TsxLint.Proofs.Table
import TsxLint.Proofs.Json.Keys
import TsxLint.Proofs.Settings.Reading
import TsxLint.Proofs.Settings.Layering
import TsxLint.Proofs.Edit.Overlap
import TsxLint.Proofs.Edit.Splicing
import TsxLint.Proofs.Edit.Acceptance
import TsxLint.Proofs.Engine.Idempotence
import TsxLint.Proofs.Engine.Reached
import TsxLint.Proofs.Engine.PassFaults
import TsxLint.Proofs.Engine.Remaining
import TsxLint.Proofs.Imports.Completeness
import TsxLint.Proofs.Edit.Boundaries
import TsxLint.Proofs.Rule.Visits
import TsxLint.Proofs.Source.WellFormed
import TsxLint.Proofs.Source.Assembly
import TsxLint.Proofs.Source.Placement
import TsxLint.Proofs.Source.Spans
import TsxLint.Proofs.Source.Files
import TsxLint.Proofs.Source.ParseFaults
import TsxLint.Proofs.Rules.SingleEdits
import TsxLint.Proofs.Imports.Gathering
import TsxLint.Proofs.Rules.ClassNames
import TsxLint.Proofs.Rules.Applicable
import TsxLint.Proofs.Rule.Calls
import TsxLint.Proofs.Engine.Starvation
import TsxLint.Proofs.Source.Totality
import TsxLint.Proofs.Source.Parts
import TsxLint.Proofs.Source.Markup
import TsxLint.Proofs.Source.KeptMarkup
import TsxLint.Proofs.Engine.Registry
import TsxLint.Proofs.Engine.Isolation
import TsxLint.Proofs.Engine.Selection
import TsxLint.Proofs.Command.Shell
import TsxLint.Proofs.Command.Paths
import TsxLint.Proofs.Command.Workspace
import TsxLint.Proofs.Command.Requests
import TsxLint.Proofs.Command.Survey
import TsxLint.Proofs.Command.Accounts
import TsxLint.Proofs.Command.Rechecking
import TsxLint.Proofs.Command.Collecting
import TsxLint.Proofs.Command.Inspection
import TsxLint.Proofs.Command.ExitStatus
import TsxLint.Proofs.Imports.Reporting
import TsxLint.Proofs.Settings.Rejection
import TsxLint.Proofs.Text.Words
import TsxLint.Proofs.Source.Templates
import TsxLint.Proofs.Rules.ClassLists
import TsxLint.Proofs.Number.Rounding
import TsxLint.Proofs.Number.Decimals
import TsxLint.Proofs.Number.Naturals
import TsxLint.Proofs.Json.Numbers
import TsxLint.Proofs.Json.Texts
import TsxLint.Proofs.Json.ReadBack
import TsxLint.Proofs.Json.Ascii
import TsxLint.Proofs.Settings.Roundtrip
import TsxLint.Proofs.Rules.QuotedChunks
import TsxLint.Proofs.Text.Literals
import TsxLint.Proofs.Rules.ChunkValues
import TsxLint.Proofs.Rules.HelperImport
import TsxLint.Proofs.Text.ArgumentLists
import TsxLint.Proofs.Rules.HelperArguments
import TsxLint.Proofs.Imports.Canonical
import TsxLint.Proofs.Imports.Legality
import TsxLint.Proofs.Imports.Fixpoint
import TsxLint.Proofs.Source.Statements
import TsxLint.Proofs.Rules.Prologue
import TsxLint.Proofs.Imports.Rendering
import TsxLint.Proofs.Edit.Choice
import TsxLint.Proofs.Engine.PassOrder
import TsxLint.Proofs.Source.Positions
import TsxLint.Proofs.Source.Tokens
import TsxLint.Proofs.Edit.Places
import TsxLint.Proofs.Source.Layout
import TsxLint.Proofs.Rules.SiblingGaps
import TsxLint.Proofs.Rules.SpacingReports
import TsxLint.Proofs.Rules.SpacingClosure
import TsxLint.Proofs.Source.Slices
import TsxLint.Proofs.Source.Origins
import TsxLint.Proofs.Rules.PropMaps
import TsxLint.Proofs.Text.Names
import TsxLint.Proofs.Edit.Cuts
import TsxLint.Proofs.Rules.AttributeRemoval
import TsxLint.Proofs.Rules.ArrowParts
import TsxLint.Proofs.Rules.ArrowComments
import TsxLint.Proofs.Rules.ArrowParameters
import TsxLint.Proofs.Rule.Answers
import TsxLint.Proofs.Rules.WrapperReports
import TsxLint.Proofs.Rules.LayoutClasses
import TsxLint.Proofs.Rules.CollapsedWrappers
import TsxLint.Proofs.Settings.Usability
import TsxLint.Proofs.Settings.Grouping
import TsxLint.Proofs.Number.IntegerLiterals
import TsxLint.Proofs.Source.ReadingOrder
import TsxLint.Proofs.Rules.SpacingOrder
import TsxLint.Proofs.Rules.DocumentOrder
import TsxLint.Proofs.Source.TemplateSplit
import TsxLint.Proofs.Edit.FirstOverlap
import TsxLint.Proofs.Source.Leaves
import TsxLint.Proofs.Source.TokenLookup
import TsxLint.Proofs.Source.NestedSpans
import TsxLint.Proofs.Value.Sameness

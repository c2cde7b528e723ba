import StatementCompletion.Completion.Failure
import StatementCompletion.Completion.Mending
import StatementCompletion.Completion.Pass
import StatementCompletion.Completion.Run
import StatementCompletion.Completion.Workspace
import StatementCompletion.Document
import StatementCompletion.Document.Edit
import StatementCompletion.Editor
import StatementCompletion.Editor.Newline
import StatementCompletion.Editor.Operation
import StatementCompletion.Editor.Session
import StatementCompletion.Grammar.Expression
import StatementCompletion.Grammar.Member
import StatementCompletion.Grammar.Parser
import StatementCompletion.Grammar.Source
import StatementCompletion.Grammar.Statement
import StatementCompletion.Grammar.TypeReference
import StatementCompletion.Json.Reading
import StatementCompletion.Json.Value
import StatementCompletion.Kind
import StatementCompletion.Kind.Name
import StatementCompletion.Landing.Comment
import StatementCompletion.Landing.Rule
import StatementCompletion.Layout.Depth
import StatementCompletion.Layout.Gap
import StatementCompletion.Proofs.Completion.Closing
import StatementCompletion.Proofs.Completion.Complete
import StatementCompletion.Proofs.Completion.Edited
import StatementCompletion.Proofs.Completion.EmptyBlock
import StatementCompletion.Proofs.Completion.Frame
import StatementCompletion.Proofs.Completion.Growth
import StatementCompletion.Proofs.Completion.Guarded
import StatementCompletion.Proofs.Completion.Hole
import StatementCompletion.Proofs.Completion.HolesLeft
import StatementCompletion.Proofs.Completion.KeptTokens
import StatementCompletion.Proofs.Completion.Leaves
import StatementCompletion.Proofs.Completion.Pass
import StatementCompletion.Proofs.Completion.Polls
import StatementCompletion.Proofs.Completion.Recorded
import StatementCompletion.Proofs.Completion.Run
import StatementCompletion.Proofs.Completion.Step
import StatementCompletion.Proofs.Completion.Stepping
import StatementCompletion.Proofs.Completion.Workspace
import StatementCompletion.Proofs.Document
import StatementCompletion.Proofs.Editor
import StatementCompletion.Proofs.Editor.AtOnce
import StatementCompletion.Proofs.Editor.Batch
import StatementCompletion.Proofs.Editor.Cells
import StatementCompletion.Proofs.Editor.Frame
import StatementCompletion.Proofs.Editor.Handles
import StatementCompletion.Proofs.Editor.Marked
import StatementCompletion.Proofs.Editor.Newline
import StatementCompletion.Proofs.Editor.OpenedLine
import StatementCompletion.Proofs.Editor.Operation
import StatementCompletion.Proofs.Grammar.Agreement
import StatementCompletion.Proofs.Grammar.Agreement.Combinators
import StatementCompletion.Proofs.Grammar.Agreement.Expressions
import StatementCompletion.Proofs.Grammar.Agreement.Members
import StatementCompletion.Proofs.Grammar.Agreement.Sources
import StatementCompletion.Proofs.Grammar.Agreement.Statements
import StatementCompletion.Proofs.Grammar.Agreement.Types
import StatementCompletion.Proofs.Grammar.Alike
import StatementCompletion.Proofs.Grammar.Binding
import StatementCompletion.Proofs.Grammar.Binding.Expressions
import StatementCompletion.Proofs.Grammar.Binding.Sources
import StatementCompletion.Proofs.Grammar.Bracing.Advance
import StatementCompletion.Proofs.Grammar.Bracing.Anatomy
import StatementCompletion.Proofs.Grammar.Bracing.Block
import StatementCompletion.Proofs.Grammar.Bracing.Coupling
import StatementCompletion.Proofs.Grammar.Bracing.Site
import StatementCompletion.Proofs.Grammar.Bracing.Statement
import StatementCompletion.Proofs.Grammar.Bracing.Text
import StatementCompletion.Proofs.Grammar.Combinators
import StatementCompletion.Proofs.Grammar.Evolution
import StatementCompletion.Proofs.Grammar.Expressions
import StatementCompletion.Proofs.Grammar.Forming
import StatementCompletion.Proofs.Grammar.Forming.Combinators
import StatementCompletion.Proofs.Grammar.Forming.Expressions
import StatementCompletion.Proofs.Grammar.Forming.Members
import StatementCompletion.Proofs.Grammar.Forming.Sources
import StatementCompletion.Proofs.Grammar.Forming.Statements
import StatementCompletion.Proofs.Grammar.Growth
import StatementCompletion.Proofs.Grammar.Loops
import StatementCompletion.Proofs.Grammar.Lossless
import StatementCompletion.Proofs.Grammar.Members
import StatementCompletion.Proofs.Grammar.Parses
import StatementCompletion.Proofs.Grammar.Statements
import StatementCompletion.Proofs.Grammar.Tracking
import StatementCompletion.Proofs.Grammar.Tracking.Combinators
import StatementCompletion.Proofs.Grammar.Tracking.Expressions
import StatementCompletion.Proofs.Grammar.Tracking.Gates
import StatementCompletion.Proofs.Grammar.Tracking.Headers
import StatementCompletion.Proofs.Grammar.Tracking.Sealing
import StatementCompletion.Proofs.Grammar.Tracking.Sealing.Statements
import StatementCompletion.Proofs.Grammar.Truncation
import StatementCompletion.Proofs.Grammar.Truncation.Combinators
import StatementCompletion.Proofs.Grammar.Truncation.Expressions
import StatementCompletion.Proofs.Grammar.Truncation.Parens
import StatementCompletion.Proofs.Grammar.Truncation.Sources
import StatementCompletion.Proofs.Grammar.Truncation.Texts
import StatementCompletion.Proofs.Grammar.Truncation.Types
import StatementCompletion.Proofs.Landing.Comment
import StatementCompletion.Proofs.Landing.Program
import StatementCompletion.Proofs.Landing.Rule
import StatementCompletion.Proofs.Layout
import StatementCompletion.Proofs.Layout.Braces
import StatementCompletion.Proofs.Layout.Depth
import StatementCompletion.Proofs.Layout.Pieces
import StatementCompletion.Proofs.Layout.Relay
import StatementCompletion.Proofs.Layout.Settled
import StatementCompletion.Proofs.Layout.Targets
import StatementCompletion.Proofs.Layout.Wanted
import StatementCompletion.Proofs.Repair.Bracing
import StatementCompletion.Proofs.Repair.Closing
import StatementCompletion.Proofs.Repair.Complete
import StatementCompletion.Proofs.Repair.CutOff
import StatementCompletion.Proofs.Repair.Insertion
import StatementCompletion.Proofs.Repair.Literal
import StatementCompletion.Proofs.Repair.Recording
import StatementCompletion.Proofs.Repair.Remedies
import StatementCompletion.Proofs.Repair.Target
import StatementCompletion.Proofs.Repair.Torn
import StatementCompletion.Proofs.Repair.Unended
import StatementCompletion.Proofs.Text.Breaks
import StatementCompletion.Proofs.Text.Bytes
import StatementCompletion.Proofs.Text.Cuts
import StatementCompletion.Proofs.Text.LineEnds
import StatementCompletion.Proofs.Text.Lines
import StatementCompletion.Proofs.Token
import StatementCompletion.Proofs.Token.Alone
import StatementCompletion.Proofs.Token.Broken
import StatementCompletion.Proofs.Token.Ending
import StatementCompletion.Proofs.Token.Front
import StatementCompletion.Proofs.Token.Insertion
import StatementCompletion.Proofs.Token.Program
import StatementCompletion.Proofs.Token.Quotes
import StatementCompletion.Proofs.Token.Respacing
import StatementCompletion.Proofs.Tree.Below
import StatementCompletion.Proofs.Tree.Core
import StatementCompletion.Proofs.Tree.History
import StatementCompletion.Proofs.Tree.Leaves
import StatementCompletion.Proofs.Tree.Navigation
import StatementCompletion.Proofs.Tree.Parts
import StatementCompletion.Proofs.Tree.Places
import StatementCompletion.Proofs.Tree.Searches
import StatementCompletion.Proofs.Tree.Shapes
import StatementCompletion.Proofs.Tree.Spans
import StatementCompletion.Proofs.Tree.Swapped
import StatementCompletion.Proofs.Tree.Tidy
import StatementCompletion.Proofs.Tree.Torn
import StatementCompletion.Proofs.Tree.Unbraced
import StatementCompletion.Proofs.Tree.Walks
import StatementCompletion.Proofs.Tree.Whole
import StatementCompletion.Repair.Action
import StatementCompletion.Repair.Body
import StatementCompletion.Repair.Delimiter
import StatementCompletion.Repair.Header
import StatementCompletion.Repair.Holes
import StatementCompletion.Repair.Remedy
import StatementCompletion.Repair.Target
import StatementCompletion.Repair.Value
import StatementCompletion.Settings
import StatementCompletion.Settings.Reading
import StatementCompletion.Style
import StatementCompletion.Style.Comments
import StatementCompletion.Text
import StatementCompletion.Text.Alphabetic
import StatementCompletion.Text.Bytes
import StatementCompletion.Text.Lines
import StatementCompletion.Text.Numeric
import StatementCompletion.Text.WhiteSpace
import StatementCompletion.Token
import StatementCompletion.Tree.Children
import StatementCompletion.Tree.Cursor
import StatementCompletion.Tree.Node
import StatementCompletion.Tree.Outline
import StatementCompletion.Tree.Problem
import StatementCompletion.Tree.Search
import StatementCompletion.Tree.Snapshot

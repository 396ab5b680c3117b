import DevicetreePrep.Branch
import DevicetreePrep.CommandLine
import DevicetreePrep.CommandLine.Invocation
import DevicetreePrep.CommandLine.Switch
import DevicetreePrep.Comment
import DevicetreePrep.Definition
import DevicetreePrep.Definition.Reading
import DevicetreePrep.Definition.Table
import DevicetreePrep.Diagnostic
import DevicetreePrep.Diagnostic.Json
import DevicetreePrep.Directive
import DevicetreePrep.Expansion
import DevicetreePrep.Expansion.Call
import DevicetreePrep.Expansion.Item
import DevicetreePrep.Expansion.Paste
import DevicetreePrep.Expansion.Report
import DevicetreePrep.Expansion.Template
import DevicetreePrep.Expression
import DevicetreePrep.Expression.Double
import DevicetreePrep.Expression.Error
import DevicetreePrep.Expression.Grammar
import DevicetreePrep.Expression.Literal
import DevicetreePrep.Expression.Tree
import DevicetreePrep.Expression.Value
import DevicetreePrep.FileSystem
import DevicetreePrep.FileSystem.Path
import DevicetreePrep.Inclusion
import DevicetreePrep.Options
import DevicetreePrep.PhysicalLine
import DevicetreePrep.Problem
import DevicetreePrep.Run
import DevicetreePrep.Run.LogicalLine
import DevicetreePrep.Run.State
import DevicetreePrep.Run.Step
import DevicetreePrep.Run.Unread
import DevicetreePrep.Substitution
import DevicetreePrep.SystemError
import DevicetreePrep.Text.Basic
import DevicetreePrep.Text.Blank
import DevicetreePrep.Text.Digit
import DevicetreePrep.Text.Identifier
import DevicetreePrep.Text.Letter
import DevicetreePrep.Text.Numeric
import DevicetreePrep.Text.Printable
import DevicetreePrep.Text.Quoted
import DevicetreePrep.Text.Ranges
import DevicetreePrep.Text.Utf8
import DevicetreePrep.Token
import DevicetreePrep.Token.Gap
import DevicetreePrep.Token.Lexer
import DevicetreePrep.Main
import DevicetreePrep.Proofs.Branch.Selection
import DevicetreePrep.Proofs.Expansion.Block
import DevicetreePrep.Proofs.Expansion.Segments
import DevicetreePrep.Proofs.Expansion.Unfolding
import DevicetreePrep.Proofs.Expansion.Verbatim
import DevicetreePrep.Proofs.Expression.DoubleRange
import DevicetreePrep.Proofs.Expression.Evaluation
import DevicetreePrep.Proofs.Expression.Failure
import DevicetreePrep.Proofs.Expression.Formula
import DevicetreePrep.Proofs.Expression.Overrun
import DevicetreePrep.Proofs.Expression.Reading
import DevicetreePrep.Proofs.Expression.Rules
import DevicetreePrep.Proofs.Expression.Spelling
import DevicetreePrep.Proofs.Expression.Step
import DevicetreePrep.Proofs.PhysicalLine.Continuation
import DevicetreePrep.Proofs.Run.Inclusion
import DevicetreePrep.Proofs.Run.Nesting
import DevicetreePrep.Proofs.Run.Recursion
import DevicetreePrep.Proofs.Token.Spelling
import DevicetreePrep.Proofs.Run.Endings
import DevicetreePrep.Proofs.Run.Output
import DevicetreePrep.Proofs.Run.Origins
import DevicetreePrep.Proofs.Branch.OnTop
import DevicetreePrep.Proofs.Definition.Places
import DevicetreePrep.Proofs.Expansion.Places
import DevicetreePrep.Proofs.Run.Alike
import DevicetreePrep.Proofs.Run.Waiting
import DevicetreePrep.Proofs.Run.Closed
import DevicetreePrep.Proofs.Run.Pasting
import DevicetreePrep.Proofs.Inclusion.Spelled
import DevicetreePrep.Proofs.Run.InclusionAsPasting
import DevicetreePrep.Proofs.Comment.Splicing
import DevicetreePrep.Proofs.Run.Termination
import DevicetreePrep.Proofs.Run.IncludeDiscipline
import DevicetreePrep.Proofs.Run.CutLine
import DevicetreePrep.Proofs.Token.Gap
import DevicetreePrep.Proofs.Token.Lookahead
import DevicetreePrep.Proofs.Token.Rereading
import DevicetreePrep.Proofs.Comment.Lexing
import DevicetreePrep.Proofs.Definition.Declaration
import DevicetreePrep.Proofs.Definition.Dump
import DevicetreePrep.Proofs.Expansion.Redefinition
import DevicetreePrep.Proofs.Run.Skipping
import DevicetreePrep.Proofs.Expansion.Ledger
import DevicetreePrep.Proofs.Expansion.Budget
import DevicetreePrep.Proofs.Expansion.Limit
import DevicetreePrep.Proofs.FileSystem.Canonical
import DevicetreePrep.Proofs.Run.SkippedGroup
import DevicetreePrep.Proofs.Run.CanonicalFiles
import DevicetreePrep.Proofs.Substitution.Positions
import DevicetreePrep.Proofs.Expansion.Anchors
import DevicetreePrep.Proofs.Expansion.Arguments
import DevicetreePrep.Proofs.Expansion.Stringizing
import DevicetreePrep.Proofs.Expansion.Events
import DevicetreePrep.Proofs.Expansion.Renaming
import DevicetreePrep.Proofs.Token.Legibility
import DevicetreePrep.Proofs.Expansion.Tidiness
import DevicetreePrep.Proofs.Expansion.Boundaries
import DevicetreePrep.Proofs.Branch.InPlace
import DevicetreePrep.Proofs.Token.Partition
import DevicetreePrep.Proofs.Inclusion.Delimiters
import DevicetreePrep.Proofs.Comment.Opening
import DevicetreePrep.Proofs.Run.UnclosedComment
import DevicetreePrep.Proofs.Token.Alone
import DevicetreePrep.Proofs.Diagnostic.Grouping
import DevicetreePrep.Proofs.Expression.LastOperand
import DevicetreePrep.Proofs.Expression.UnclosedCharacter
import DevicetreePrep.Proofs.Run.StatementColumns
import DevicetreePrep.Proofs.Comment.Pieces
import DevicetreePrep.Proofs.PhysicalLine.Numbering

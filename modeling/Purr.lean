import Purr.Block
import Purr.Code
import Purr.CommandLine
import Purr.Console
import Purr.Diagnostic
import Purr.Evaluation
import Purr.Execution
import Purr.Expr
import Purr.Expr.Parser
import Purr.Files
import Purr.Fragment
import Purr.Function
import Purr.Lexeme
import Purr.Line
import Purr.Line.Comment
import Purr.Main
import Purr.Nesting
import Purr.Number.Double
import Purr.Number.Numeral
import Purr.Number.Shortest
import Purr.Operator
import Purr.Path
import Purr.Run
import Purr.Scope
import Purr.Script
import Purr.Session
import Purr.Statement
import Purr.Statement.Lemmas
import Purr.SyntaxError
import Purr.Text.Basic
import Purr.Text.Blank
import Purr.Token
import Purr.Value
import Purr.Proofs.Lexing.NumberRule
import Purr.Proofs.Lexing.TokenRules
import Purr.Proofs.Lexing.MaximalMunch
import Purr.Proofs.Lexing.Seams
import Purr.Proofs.Lexing.Borders
import Purr.Proofs.Number.Rounding
import Purr.Proofs.Number.Layout
import Purr.Proofs.Number.Patterns
import Purr.Proofs.Number.ReadBack
import Purr.Proofs.Parsing.Grammar
import Purr.Proofs.Parsing.Completeness
import Purr.Proofs.Parsing.Correctness
import Purr.Proofs.Parsing.Mentions
import Purr.Proofs.Parsing.Refusals
import Purr.Proofs.UnknownNames
import Purr.Proofs.Positions
import Purr.Proofs.TopLevel
import Purr.Proofs.Pieces
import Purr.Proofs.Parentheses
import Purr.Proofs.Partners
import Purr.Proofs.Parsing.Calls
import Purr.Proofs.Statements
import Purr.Proofs.Braces
import Purr.Proofs.Items
import Purr.Proofs.Evaluations
import Purr.Proofs.Executions
import Purr.Proofs.UnclosedBlocks
import Purr.Proofs.LineByLine
import Purr.Proofs.ReturnKinds
import Purr.Proofs.Composition
import Purr.Proofs.StaticStructure
import Purr.Proofs.Headers
import Purr.Proofs.BlockStructure
import Purr.Proofs.Cuts
import Purr.Proofs.LineFeeds
import Purr.Proofs.Comments
import Purr.Proofs.Stripping
import Purr.Proofs.Provenance
import Purr.Proofs.Simulation
import Purr.Proofs.Noninterference
import Purr.Proofs.OutputLimit
import Purr.Proofs.Locality
import Purr.Proofs.Termination
import Purr.Proofs.Arguments
import Purr.Proofs.ValueLines
import Purr.Proofs.Booleans
import Purr.Proofs.Literals
import Purr.Proofs.Collecting
import Purr.Proofs.Fragments
import Purr.Proofs.Concatenation
import Purr.Proofs.UnclosedEffects
import Purr.Proofs.Layouts

import Toal.CommandLine
import Toal.Compiler
import Toal.Context
import Toal.Diagnostic
import Toal.Entity
import Toal.Journal
import Toal.Journal.Text
import Toal.Main
import Toal.Number.Magnitude
import Toal.Number.Numeral
import Toal.Number.Shortest
import Toal.Number.Text
import Toal.Operator
import Toal.Outline
import Toal.Prelude
import Toal.Problem
import Toal.Program
import Toal.Program.Constant
import Toal.Program.Outline
import Toal.Program.Reduction
import Toal.Program.Simplify
import Toal.Proofs.Blame
import Toal.Proofs.BranchScopes
import Toal.Proofs.BreakLines
import Toal.Proofs.BuiltinCalls
import Toal.Proofs.Calls
import Toal.Proofs.CompileOutcome
import Toal.Proofs.Depth
import Toal.Proofs.Elaboration
import Toal.Proofs.Extents
import Toal.Proofs.FrameArena
import Toal.Proofs.Grammar
import Toal.Proofs.Grouping
import Toal.Proofs.Layouts
import Toal.Proofs.LineKinds
import Toal.Proofs.LineTrees
import Toal.Proofs.Literals
import Toal.Proofs.Locations
import Toal.Proofs.Lookahead
import Toal.Proofs.NamesApart
import Toal.Proofs.NearestNumbers
import Toal.Proofs.NormalForms
import Toal.Proofs.NumberTexts
import Toal.Proofs.Numerals
import Toal.Proofs.OperatorGrammar
import Toal.Proofs.OtherTexts
import Toal.Proofs.Overruns
import Toal.Proofs.OwnFrame
import Toal.Proofs.Packing
import Toal.Proofs.ParseComplete
import Toal.Proofs.ParseExact
import Toal.Proofs.ParsePlaces
import Toal.Proofs.ParseSound
import Toal.Proofs.ParseSteps
import Toal.Proofs.Partition
import Toal.Proofs.PassOrder
import Toal.Proofs.Precedence
import Toal.Proofs.ReadOnly
import Toal.Proofs.References
import Toal.Proofs.Renaming
import Toal.Proofs.Rendering
import Toal.Proofs.Requests
import Toal.Proofs.Rescanning
import Toal.Proofs.RespelledScripts
import Toal.Proofs.RespelledTyping
import Toal.Proofs.Respelling
import Toal.Proofs.Rounding
import Toal.Proofs.Rules
import Toal.Proofs.RunBindings
import Toal.Proofs.ScanPlaces
import Toal.Proofs.ScopeAgreement
import Toal.Proofs.ScopeStack
import Toal.Proofs.Scopes
import Toal.Proofs.ScriptNames
import Toal.Proofs.ScriptScopes
import Toal.Proofs.ScriptSymbols
import Toal.Proofs.Semantics
import Toal.Proofs.Shifting
import Toal.Proofs.ShortestDecimals
import Toal.Proofs.Shrinking
import Toal.Proofs.SimplifySound
import Toal.Proofs.Skeleton
import Toal.Proofs.Slices
import Toal.Proofs.StrayBreaks
import Toal.Proofs.SyntaxErrors
import Toal.Proofs.Templates
import Toal.Proofs.TermEval
import Toal.Proofs.TermGrammar
import Toal.Proofs.TermText
import Toal.Proofs.TextPieces
import Toal.Proofs.TypePreservation
import Toal.Proofs.TypedForms
import Toal.Proofs.TypingExact
import Toal.Proofs.TypingSteps
import Toal.Proofs.TypingWalk
import Toal.Proofs.Unambiguous
import Toal.Proofs.Viable
import Toal.Proofs.Visibility
import Toal.Script
import Toal.Script.OfProgram
import Toal.Script.Text
import Toal.Source.Position
import Toal.Surface
import Toal.Surface.Outline
import Toal.Surface.Parse.Basic
import Toal.Surface.Parse.Expr
import Toal.Surface.Parse.Stmt
import Toal.Text.Alphanumeric
import Toal.Text.Extending
import Toal.Text.Quoted
import Toal.Text.Unprintable
import Toal.Token
import Toal.Token.Outline
import Toal.Token.Scan
import Toal.Ty
import Toal.Typing.Basic
import Toal.Typing.Expr
import Toal.Typing.Stmt

import JsonExpr.Check
import JsonExpr.Command
import JsonExpr.Engine
import JsonExpr.Eval
import JsonExpr.Expr
import JsonExpr.Fields
import JsonExpr.Grammar
import JsonExpr.Json.Basic
import JsonExpr.Json.Reader
import JsonExpr.Main
import JsonExpr.Number.Binary64
import JsonExpr.Number.Decimal
import JsonExpr.Number.Decimal96
import JsonExpr.Number.FloatText
import JsonExpr.Operators.Arithmetic
import JsonExpr.Operators.Comparison
import JsonExpr.Operators.Standard
import JsonExpr.Parser.Basic
import JsonExpr.Parser.Level
import JsonExpr.Parser.Registers
import JsonExpr.Parser.State
import JsonExpr.Proofs.Arithmetic
import JsonExpr.Proofs.Brackets
import JsonExpr.Proofs.Conversion
import JsonExpr.Proofs.Engine
import JsonExpr.Proofs.Equality
import JsonExpr.Proofs.Errors
import JsonExpr.Proofs.Fields
import JsonExpr.Proofs.Grammar
import JsonExpr.Proofs.Groups
import JsonExpr.Proofs.JsonText
import JsonExpr.Proofs.Kinds
import JsonExpr.Proofs.Lexemes
import JsonExpr.Proofs.Lexer
import JsonExpr.Proofs.Lossless
import JsonExpr.Proofs.MixedArithmetic
import JsonExpr.Proofs.Number.Decimals
import JsonExpr.Proofs.Number.Doubles
import JsonExpr.Proofs.Number.Rounding
import JsonExpr.Proofs.Objects
import JsonExpr.Proofs.Operators
import JsonExpr.Proofs.Ordering
import JsonExpr.Proofs.Pace
import JsonExpr.Proofs.Parser.Actions
import JsonExpr.Proofs.Parser.Attempts
import JsonExpr.Proofs.Parser.Coherence
import JsonExpr.Proofs.Parser.Completeness
import JsonExpr.Proofs.Parser.DottedCalls
import JsonExpr.Proofs.Parser.Endings
import JsonExpr.Proofs.Parser.Excerpts
import JsonExpr.Proofs.Parser.Machine
import JsonExpr.Proofs.Parser.Precedence
import JsonExpr.Proofs.Parser.Quotes
import JsonExpr.Proofs.Parser.Reads
import JsonExpr.Proofs.Parser.Refusals
import JsonExpr.Proofs.Parser.Registers
import JsonExpr.Proofs.Parser.Rendering
import JsonExpr.Proofs.Parser.Response
import JsonExpr.Proofs.Parser.Sentence
import JsonExpr.Proofs.Parser.Signs
import JsonExpr.Proofs.Parser.Soundness
import JsonExpr.Proofs.Parser.Steps
import JsonExpr.Proofs.Parser.Terms
import JsonExpr.Proofs.Parser.WellFormed
import JsonExpr.Proofs.Paths
import JsonExpr.Proofs.Positions
import JsonExpr.Proofs.Progress
import JsonExpr.Proofs.Registration
import JsonExpr.Proofs.Rewriting
import JsonExpr.Proofs.Scoping
import JsonExpr.Proofs.Sequential
import JsonExpr.Proofs.Session
import JsonExpr.Proofs.Siblings
import JsonExpr.Proofs.Spacing
import JsonExpr.Proofs.Starts
import JsonExpr.Proofs.Strings
import JsonExpr.Proofs.Symbols
import JsonExpr.Proofs.Text
import JsonExpr.Proofs.Tree
import JsonExpr.Proofs.Unreachable
import JsonExpr.Proofs.Value
import JsonExpr.Proofs.View
import JsonExpr.Proofs.Written
import JsonExpr.Reference
import JsonExpr.Registration
import JsonExpr.Run.Basic
import JsonExpr.Run.Siblings
import JsonExpr.Session
import JsonExpr.Text.Classes
import JsonExpr.Text.Numeral
import JsonExpr.Text.Quoted
import JsonExpr.Text.Word
import JsonExpr.Token.Basic
import JsonExpr.Token.Lexer
import JsonExpr.Value.Basic
import JsonExpr.Value.Equality
import JsonExpr.Value.Json

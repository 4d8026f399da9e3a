import LineScript.Bytes
import LineScript.Command.Basic
import LineScript.Command.Flag
import LineScript.Command.Help
import LineScript.Command.Log
import LineScript.Command.Perform
import LineScript.Command.TokenTable
import LineScript.File.Loader
import LineScript.File.Path
import LineScript.File.Tree
import LineScript.Function.Conversion
import LineScript.Function.Numeric
import LineScript.Function.Registry
import LineScript.Function.Textual
import LineScript.Interpreter
import LineScript.Machine.Action
import LineScript.Machine.Channel
import LineScript.Main
import LineScript.Number.Binary64
import LineScript.Number.Decimal
import LineScript.Number.FloatText
import LineScript.Number.Power
import LineScript.Number.Shortest
import LineScript.Operator
import LineScript.Run.Eval
import LineScript.Run.Exec
import LineScript.Settings.Basic
import LineScript.Settings.Decode
import LineScript.Settings.Locate
import LineScript.Syntax.Expression
import LineScript.Syntax.Fault
import LineScript.Syntax.Line
import LineScript.Syntax.Outline
import LineScript.Syntax.Statement
import LineScript.Syntax.Tree
import LineScript.Table
import LineScript.Text.Base64
import LineScript.Text.Glyph
import LineScript.Text.Printable
import LineScript.Text.Quoted
import LineScript.Token.Basic
import LineScript.Token.Scanner
import LineScript.Value.Basic
import LineScript.Value.Failure
import LineScript.Value.Operator
import LineScript.Yaml.Character
import LineScript.Yaml.Cursor
import LineScript.Yaml.Lexeme
import LineScript.Yaml.Lexer
import LineScript.Yaml.Node
import LineScript.Yaml.Problem
import LineScript.Yaml.Resolve
import LineScript.Yaml.Scalar
import LineScript.Yaml.Timestamp
import LineScript.Proofs.ExpressionReading
import LineScript.Proofs.StatementReading
import LineScript.Proofs.ProgramReading
import LineScript.Proofs.StandardFunctions
import LineScript.Proofs.Interpretation
import LineScript.Proofs.RunRelation
import LineScript.Proofs.Progress
import LineScript.Proofs.Budget
import LineScript.Proofs.BudgetedRun
import LineScript.Proofs.Numerals
import LineScript.Proofs.PrintReading
import LineScript.Proofs.WellFormed
import LineScript.Proofs.Relocation
import LineScript.Proofs.LineIsolation
import LineScript.Proofs.LinePartition
import LineScript.Proofs.BlockRecovery
import LineScript.Proofs.SourceJoining
import LineScript.Proofs.IncrementalRun
import LineScript.Proofs.StepBlindness
import LineScript.Proofs.Confinement
import LineScript.Proofs.Journal
import LineScript.Proofs.FailureLine
import LineScript.Proofs.LimitedOutput
import LineScript.Proofs.InputLines
import LineScript.Proofs.SourceLines
import LineScript.Proofs.TokenWriting
import LineScript.Proofs.EmittedTokens
import LineScript.Proofs.CanonicalValues
import LineScript.Proofs.LoopForms
import LineScript.Proofs.ConditionalChains
import LineScript.Proofs.CompoundAssignment
import LineScript.Proofs.OperatorSeries
import LineScript.Proofs.CleanPaths
import LineScript.Proofs.ScriptLoading
import LineScript.Proofs.OpenLiterals
import LineScript.Proofs.LineCounts
import LineScript.Proofs.LineEndings
import LineScript.Proofs.TokenRendering
import LineScript.Proofs.EvaluationFrame
import LineScript.Proofs.StaticTypes
import LineScript.Proofs.WrappedIntegers
import LineScript.Proofs.NearestIntegers
import LineScript.Proofs.NumeralReading
import LineScript.Proofs.Templates
import LineScript.Proofs.ScannerReuse

import Parlance.Builtin
import Parlance.CommandLine.Disk
import Parlance.CommandLine.Invocation
import Parlance.CommandLine.Options
import Parlance.Contextual.Automaton
import Parlance.Contextual.Lexeme
import Parlance.Descent.Expression
import Parlance.Descent.Statement
import Parlance.Environment
import Parlance.Evaluation
import Parlance.Execution
import Parlance.Json
import Parlance.Json.Reader
import Parlance.Json.Writer
import Parlance.Machine
import Parlance.Main
import Parlance.Mistake
import Parlance.Number.Operation
import Parlance.Number.Reading
import Parlance.Number.Shape
import Parlance.Number.Shortest
import Parlance.Number.Text
import Parlance.Operator
import Parlance.Problem
import Parlance.Program
import Parlance.Session
import Parlance.Text.Blank
import Parlance.Text.Digit
import Parlance.Text.Letter
import Parlance.Text.Lines
import Parlance.Text.Numeral
import Parlance.Text.Printable
import Parlance.Text.Quoted
import Parlance.Text.Ranges
import Parlance.Token
import Parlance.Token.Scan
import Parlance.Tree
import Parlance.Tree.Codec
import Parlance.Tree.Compare
import Parlance.Tree.Shown
import Parlance.Proofs.Grammar
import Parlance.Proofs.DescentReaders
import Parlance.Proofs.DescentSoundness
import Parlance.Proofs.DescentCompleteness
import Parlance.Proofs.Words
import Parlance.Proofs.ContextualLexing
import Parlance.Proofs.ContextualRun
import Parlance.Proofs.ContextualTracking
import Parlance.Proofs.ContextualPassage
import Parlance.Proofs.Agreement
import Parlance.Proofs.DescentRoom
import Parlance.Proofs.SourceLines
import Parlance.Proofs.ContextualSteps
import Parlance.Proofs.ContextualLines
import Parlance.Proofs.Outcome
import Parlance.Proofs.Operators
import Parlance.Proofs.EvaluationOutcome
import Parlance.Proofs.Confinement
import Parlance.Proofs.Patience
import Parlance.Proofs.PlainFailures
import Parlance.Proofs.Cancellation
import Parlance.Proofs.Growth
import Parlance.Proofs.Interruption
import Parlance.Proofs.Persistence
import Parlance.Proofs.ContextualRefusals
import Parlance.Proofs.Rejection
import Parlance.Proofs.Rounding
import Parlance.Proofs.DecimalText
import Parlance.Proofs.JsonRoundTrip
import Parlance.Proofs.CodecRoundTrip
import Parlance.Proofs.DiskWrites
import Parlance.Proofs.Calls
import Parlance.Proofs.Emission
import Parlance.Proofs.Lockstep
import Parlance.Proofs.Tracing
import Parlance.Proofs.MoreInput
import Parlance.Proofs.LineShift
import Parlance.Proofs.DescentShift
import Parlance.Proofs.Composition
import Parlance.Proofs.Chains
import Parlance.Proofs.FloatClasses
import Parlance.Proofs.Occurrences
import Parlance.Proofs.StrictLockstep
import Parlance.Proofs.Footprint
import Parlance.Proofs.Literals
import Parlance.Proofs.Regularity
import Parlance.Proofs.InputFile
import Parlance.Proofs.Spelling
import Parlance.Proofs.Covering
import Parlance.Proofs.Foresight
import Parlance.Proofs.ExpressionForesight
import Parlance.Proofs.StatementForesight
import Parlance.Proofs.FirstRefusal
import Parlance.Proofs.LoopSignals
import Parlance.Proofs.Rationals
import Parlance.Proofs.DisplayText
import Parlance.Proofs.Sums
import Parlance.Proofs.Counting
import Parlance.Proofs.RangeLoops
import Parlance.Proofs.Decoding
import Parlance.Proofs.LongChains
import Parlance.Proofs.NodeLines
import Parlance.Proofs.Progress

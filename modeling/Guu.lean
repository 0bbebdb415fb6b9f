import Guu.CommandLine.Arguments
import Guu.CommandLine.Directory
import Guu.CommandLine.Frontend
import Guu.CommandLine.Invocation
import Guu.CommandLine.Options
import Guu.CommandLine.StandardOutput
import Guu.Debugger.Command
import Guu.Debugger.InputLine
import Guu.Debugger.Session
import Guu.Journal.Loading
import Guu.Journal.Note
import Guu.Journal.Outcome
import Guu.Journal.Transcript
import Guu.Machine.Basic
import Guu.Machine.Bound
import Guu.Machine.Report
import Guu.Machine.Run
import Guu.Machine.Stack
import Guu.Machine.Step
import Guu.Machine.Store
import Guu.Main
import Guu.Program.Basic
import Guu.Program.Compile
import Guu.Program.Effect
import Guu.Program.Index
import Guu.Program.Instruction
import Guu.Stream.Failure
import Guu.Stream.Sink
import Guu.Text.Blank
import Guu.Text.Decimal
import Guu.Text.Printable
import Guu.Text.Quoted
import Guu.Text.Utf8
import Guu.Token.Basic
import Guu.Token.Scanner
import Guu.Tree.Basic
import Guu.Tree.Layout
import Guu.Tree.Parser
import Guu.Tree.Reader
import Guu.Tree.Rule
import Guu.Proofs.Machine.Execution
import Guu.Proofs.Machine.Operation
import Guu.Proofs.Evaluation.Basic
import Guu.Proofs.Evaluation.Agreement
import Guu.Proofs.Program.CallGraph
import Guu.Proofs.Evaluation.ControlError
import Guu.Proofs.Machine.Termination
import Guu.Proofs.Machine.CallStack
import Guu.Proofs.Machine.Confluence
import Guu.Proofs.Machine.Failure
import Guu.Proofs.Machine.Backtrace
import Guu.Proofs.Journal.Attempt
import Guu.Proofs.Machine.Refusal
import Guu.Proofs.Grammar.Consumption
import Guu.Proofs.Grammar.Phrase
import Guu.Proofs.Grammar.Recognition
import Guu.Proofs.Grammar.Viability
import Guu.Proofs.Token.Lexeme
import Guu.Proofs.Token.Concatenation
import Guu.Proofs.Grammar.Violation
import Guu.Proofs.Grammar.Diagnosis
import Guu.Proofs.Machine.Resumption
import Guu.Proofs.Machine.Correspondence
import Guu.Proofs.Machine.Reply
import Guu.Proofs.Token.Displacement
import Guu.Proofs.Grammar.Composition
import Guu.Proofs.Grammar.Renumbering
import Guu.Proofs.Grammar.Image
import Guu.Proofs.Journal.Account
import Guu.Proofs.Machine.Replay
import Guu.Proofs.Debugger.Line
import Guu.Proofs.Debugger.Inspection
import Guu.Proofs.Debugger.Progress
import Guu.Proofs.Machine.StepOver
import Guu.Proofs.Journal.Flush
import Guu.Proofs.Machine.Printing
import Guu.Proofs.Debugger.Flushing
import Guu.Proofs.CommandLine.Delivery
import Guu.Proofs.CommandLine.Loading
import Guu.Proofs.CommandLine.DebugOutput
import Guu.Proofs.CommandLine.Stages
import Guu.Proofs.CommandLine.Verbosity
import Guu.Proofs.Program.Acceptance
import Guu.Proofs.Program.Ownership
import Guu.Proofs.Grammar.Prediction
import Guu.Proofs.Debugger.Repetition
import Guu.Proofs.Tree.Readability
import Guu.Proofs.Token.Rewinding
import Guu.Proofs.CommandLine.Wording
import Guu.Proofs.Grammar.LineEnding
import Guu.Proofs.Text.Numeral
import Guu.Proofs.Grammar.Literal
import Guu.Proofs.Machine.OrderedStore
import Guu.Proofs.Machine.Assignment
import Guu.Proofs.Grammar.Route
import Guu.Proofs.Grammar.Coherence
import Guu.Proofs.Debugger.Turn
import Guu.Proofs.Machine.Redirection
import Guu.Proofs.Program.Indexing
import Guu.Proofs.Machine.Simulation
import Guu.Proofs.Machine.StackExecution

import EggLang.Builtin
import EggLang.CommandLine.Command
import EggLang.CommandLine.Log
import EggLang.CommandLine.Options
import EggLang.CommandLine.Settings
import EggLang.Evaluate
import EggLang.Fault
import EggLang.Files.Folder
import EggLang.Files.Path
import EggLang.Form
import EggLang.Kind
import EggLang.Main
import EggLang.Number.Basic
import EggLang.Number.Digits
import EggLang.Number.Double
import EggLang.Number.Power
import EggLang.Number.Shortest
import EggLang.Number.Style
import EggLang.Run
import EggLang.Session
import EggLang.Source.Expr
import EggLang.Source.Reader
import EggLang.Source.Token
import EggLang.Source.Writer
import EggLang.Store.Basic
import EggLang.Store.Bindings
import EggLang.Store.Lemmas
import EggLang.Text.Blank
import EggLang.Text.Integer
import EggLang.Text.Newline
import EggLang.Text.Place
import EggLang.Text.Quoted
import EggLang.Text.Range
import EggLang.Text.Split
import EggLang.Text.Unseen
import EggLang.Text.Upper
import EggLang.Text.Utf8
import EggLang.Value.Basic
import EggLang.Value.Display
import EggLang.Proofs.Source.Grammar
import EggLang.Proofs.Source.Pieces
import EggLang.Proofs.Source.Moves
import EggLang.Proofs.Source.Acceptance
import EggLang.Proofs.Source.RoundTrip
import EggLang.Proofs.Source.Refusal
import EggLang.Proofs.Alike.Builtin
import EggLang.Proofs.Alike.Store
import EggLang.Proofs.Alike.Evaluate
import EggLang.Proofs.Locality
import EggLang.Proofs.Discipline.Effect
import EggLang.Proofs.Discipline.Evaluate
import EggLang.Proofs.Sound
import EggLang.Proofs.Reached
import EggLang.Proofs.Limits
import EggLang.Proofs.OneProgram
import EggLang.Proofs.Isolation
import EggLang.Proofs.Trace.Basic
import EggLang.Proofs.Trace.Law
import EggLang.Proofs.Growth
import EggLang.Proofs.Faults
import EggLang.Proofs.Renaming.Basic
import EggLang.Proofs.Renaming.Evaluate
import EggLang.Proofs.Scope
import EggLang.Proofs.Number.Overflow
import EggLang.Proofs.Verdict
import EggLang.Proofs.CommandLine.Arguments
import EggLang.Proofs.CommandLine.Course
import EggLang.Proofs.CommandLine.Verbosity
import EggLang.Proofs.Unrolling
import EggLang.Proofs.Number.Order
import EggLang.Proofs.Comparison
import EggLang.Proofs.Ledger
import EggLang.Proofs.Equality
import EggLang.Proofs.DigitLimit
import EggLang.Proofs.Text.Location
import EggLang.Proofs.Text.Encoding
import EggLang.Proofs.Program.Returns
import EggLang.Proofs.Program.ArraySum
import EggLang.Proofs.Program.Counters
import EggLang.Proofs.Unambiguous
import EggLang.Proofs.Assignment
import EggLang.Proofs.CommandLine.Resolution
import EggLang.Proofs.Source.Progress

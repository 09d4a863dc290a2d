import OrderRail.Count
import OrderRail.Fault
import OrderRail.Fifo
import OrderRail.Text.Separated
import OrderRail.Text.Lines
import OrderRail.Text.Bracketed
import OrderRail.Decimal.Word
import OrderRail.Decimal.Fixed
import OrderRail.Duration
import OrderRail.Random.Draw
import OrderRail.Random.KeyStream
import OrderRail.Random.Generators
import OrderRail.Menu
import OrderRail.Order
import OrderRail.Error
import OrderRail.Thread
import OrderRail.Journal
import OrderRail.Queue.Board
import OrderRail.Queue.Monitor
import OrderRail.Queue.Script
import OrderRail.Queue.Crew
import OrderRail.Shift.Config
import OrderRail.Shift.Audit
import OrderRail.Shift.Report
import OrderRail.Bench.Row
import OrderRail.Bench.Sweep
import OrderRail.Shift.Alone
import OrderRail.Shift.State
import OrderRail.Shift.Run
import OrderRail.Program.Console
import OrderRail.Program.Demo
import OrderRail.Program.Benchmark
import OrderRail.CommandLine.Options
import OrderRail.CommandLine.Parser
import OrderRail.CommandLine.Help
import OrderRail.Program
import OrderRail.Main
import OrderRail.Proofs.Count
import OrderRail.Proofs.Queue.Decision
import OrderRail.Proofs.Queue.Run
import OrderRail.Proofs.Queue.Accounting
import OrderRail.Proofs.Queue.Ledger
import OrderRail.Proofs.Queue.Delivery
import OrderRail.Proofs.Queue.Payloads
import OrderRail.Proofs.Queue.Wakeup
import OrderRail.Proofs.Shift.Turn
import OrderRail.Proofs.Shift.Staffed
import OrderRail.Proofs.Shift.Course
import OrderRail.Proofs.Shift.Sound
import OrderRail.Proofs.Shift.Config
import OrderRail.Proofs.Shift.Progress
import OrderRail.Proofs.Shift.Termination
import OrderRail.Proofs.Shift.Ending
import OrderRail.Proofs.Shift.Schedule
import OrderRail.Proofs.Queue.Surplus
import OrderRail.Proofs.Queue.LastNumber
import OrderRail.Proofs.Shift.Dealings
import OrderRail.Proofs.Shift.Audit
import OrderRail.Proofs.Shift.Takings
import OrderRail.Proofs.Shift.Completed
import OrderRail.Proofs.Bench.Row
import OrderRail.Proofs.Shift.Reports
import OrderRail.Proofs.Shift.Wishes
import OrderRail.Proofs.Shift.Dishes
import OrderRail.Proofs.Queue.EndOfWork
import OrderRail.Proofs.Queue.AtRest
import OrderRail.Proofs.Queue.Closing
import OrderRail.Proofs.Queue.Choice
import OrderRail.Proofs.Queue.Impatience
import OrderRail.Proofs.Queue.Script
import OrderRail.Proofs.Queue.Crew.Turn
import OrderRail.Proofs.Queue.Crew.Rounds
import OrderRail.Proofs.Shift.Visits
import OrderRail.Proofs.Shift.Alone
import OrderRail.Proofs.Bench.Sweep
import OrderRail.Proofs.Shift.Feasible
import OrderRail.Proofs.Program.Console
import OrderRail.Proofs.Program.Benchmark
import OrderRail.Proofs.Random.Draw
import OrderRail.Proofs.Menu
import OrderRail.Proofs.Decimal.Fixed
import OrderRail.Proofs.Shift.Admission
import OrderRail.Proofs.Program.Sweep
import OrderRail.Proofs.Program.Refusal
import OrderRail.Proofs.CommandLine.Spelling
import OrderRail.Proofs.CommandLine.Reading
import OrderRail.Proofs.CommandLine.Filled
import OrderRail.Proofs.CommandLine.RoundTrip

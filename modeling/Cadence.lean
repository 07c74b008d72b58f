import Cadence.Bench
import Cadence.Capabilities
import Cadence.Decimal.Significant
import Cadence.Demo
import Cadence.Demo.Table
import Cadence.Dispatcher
import Cadence.Dispatcher.Interleaving
import Cadence.Dispatcher.Run
import Cadence.Dispatcher.Tick
import Cadence.Dispatcher.Workers
import Cadence.Event
import Cadence.Exit
import Cadence.Fault
import Cadence.Health
import Cadence.Log
import Cadence.Loop
import Cadence.Main
import Cadence.Mode
import Cadence.Numeral
import Cadence.Options
import Cadence.Pool
import Cadence.Proofs.Admission
import Cadence.Proofs.Aggregates
import Cadence.Proofs.Attribution
import Cadence.Proofs.Backlog
import Cadence.Proofs.BenchActs
import Cadence.Proofs.Bytes
import Cadence.Proofs.CatchUp
import Cadence.Proofs.Chronicle
import Cadence.Proofs.Confluence
import Cadence.Proofs.Custody
import Cadence.Proofs.Deadline
import Cadence.Proofs.DemoRun
import Cadence.Proofs.DemoSetup
import Cadence.Proofs.DemoTicks
import Cadence.Proofs.Diary
import Cadence.Proofs.Drift
import Cadence.Proofs.DueTimes
import Cadence.Proofs.Evaluation
import Cadence.Proofs.ExcusedFailures
import Cadence.Proofs.Execution
import Cadence.Proofs.Failures
import Cadence.Proofs.FirstSlot
import Cadence.Proofs.Grammar
import Cadence.Proofs.Headroom
import Cadence.Proofs.Histories
import Cadence.Proofs.Isolation
import Cadence.Proofs.Jobs
import Cadence.Proofs.Moves
import Cadence.Proofs.MutedTask
import Cadence.Proofs.Numerals
import Cadence.Proofs.Outcomes
import Cadence.Proofs.Overload
import Cadence.Proofs.Overruns
import Cadence.Proofs.PairedTicks
import Cadence.Proofs.Promptness
import Cadence.Proofs.Punctuality
import Cadence.Proofs.Quiescence
import Cadence.Proofs.Reentry
import Cadence.Proofs.Refusals
import Cadence.Proofs.RegisteredTasks
import Cadence.Proofs.Registry
import Cadence.Proofs.Resumption
import Cadence.Proofs.Ruling
import Cadence.Proofs.RunLength
import Cadence.Proofs.Simulation
import Cadence.Proofs.SleepingBody
import Cadence.Proofs.Slots
import Cadence.Proofs.Soundness
import Cadence.Proofs.Spacing
import Cadence.Proofs.Spans
import Cadence.Proofs.Staffing
import Cadence.Proofs.Standing
import Cadence.Proofs.SwiftLoop
import Cadence.Proofs.SwiftTick
import Cadence.Proofs.Tally
import Cadence.Proofs.TallyRecords
import Cadence.Proofs.TaskRuns
import Cadence.Proofs.TickAccount
import Cadence.Proofs.TickOutlook
import Cadence.Proofs.Timetable
import Cadence.Proofs.WorkerSteps
import Cadence.Scheduler
import Cadence.Session
import Cadence.Sink
import Cadence.Stats
import Cadence.Tally
import Cadence.Task
import Cadence.Text
import Cadence.Thread
import Cadence.Time
import Cadence.Verdict
import Cadence.Yard
import Cadence.Yard.Interleaving

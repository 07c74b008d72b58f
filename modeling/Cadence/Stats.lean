/-!
Execution statistics of a task.

Counters and sums are unsigned words and wrap; the extremes are signed.  A latency below zero
(a run that began before the instant it was marked for) adds nothing to the sum.
-/

namespace Cadence

/-- What is known of the runs of a task; times in nanoseconds. -/
structure Stats where
  /-- Runs that ended. -/
  runs : UInt64 := 0
  /-- Runs whose body failed. -/
  failures : UInt64 := 0
  /-- The longest time from the marked start to the entry of the body. -/
  latencyMax : Int64 := 0
  /-- The sum of those times. -/
  latencySum : UInt64 := 0
  execMin : Int64 := 0
  execMax : Int64 := 0
  execSum : UInt64 := 0
  deriving DecidableEq, Repr

/-- One run: how late its body was entered, how long it took, and whether it failed. -/
structure Observation where
  /-- Nanoseconds from the marked start to the entry of the body. -/
  latency : Int64
  /-- Nanoseconds from the entry of the body to its end. -/
  exec : Int64
  failed : Bool
  deriving DecidableEq, Repr

/-- Takes one run into account (`TaskStats::observe`).  The first one sets both extremes of the execution
time. -/
def Stats.observe (s : Stats) (o : Observation) : Stats :=
  let runs := s.runs + 1
  { runs
    failures := if o.failed then s.failures + 1 else s.failures
    latencyMax := max s.latencyMax o.latency
    latencySum := s.latencySum + (if o.latency < 0 then 0 else o.latency.toUInt64)
    execMin := if runs = 1 then o.exec else min s.execMin o.exec
    execMax := if runs = 1 then o.exec else max s.execMax o.exec
    execSum := s.execSum + o.exec.toUInt64 }

end Cadence

import Cadence.Demo.Table
import Cadence.Dispatcher.Run
import Cadence.Options

/-!
A demonstration: a handful of collectors run for some seconds, and a table of them is printed every
second.

One collector, added with `--overload`, sleeps far past its interval; it is marked slow and then
muted.  The printer is a sleeper among the others, and the first of those that wake at the same
instant.
-/

namespace Cadence

/-- A dispatcher, and the printer of its table. -/
structure Demo where
  dispatcher : Dispatcher
  /-- When the next table is due. -/
  nextTable : Instant
  tables : History String := []
  deriving DecidableEq, Repr

/-- What a demonstration leaves behind. -/
structure Demo.Outcome where
  exitCode : Nat
  output : String := ""
  errors : String := ""
  log : List Line := []
  workerLog : List Line := []
  deriving DecidableEq, Repr

namespace Demo

/-! ## The collectors -/

/-- A worker's own clock moves on by this at every reading.  There is one at the end of every run.
-/
def reading : Millis := ⟨1⟩

/-- The own time of keeping the processor busy for a number of milliseconds: the clock is read
once at first, and then until the time has passed. -/
def busyTime (milliseconds : Int64) : Millis := ⟨milliseconds + 1⟩

def collectors (overload : Bool) : List Spec :=
  [ { name := "os_metrics", interval := ⟨100⟩
      body := some { ownTime := reading.plus (busyTime 2) } },
    { name := "heartbeat", interval := ⟨50⟩, capabilities := .telemetry
      body := some { ownTime := reading } },
    { name := "thread_contention", interval := ⟨200⟩
      body := some { ownTime := reading, samplingTime := busyTime 5 } },
    { name := "stats_collector", interval := ⟨1000⟩
      capabilities := Capabilities.telemetry.union .critical
      body := some { ownTime := reading } } ] ++
  if overload then
    [ { name := "disk_scan", interval := ⟨10⟩
        body := some { wait := .sleep ⟨1000⟩, ownTime := reading } } ]
  else []

/-- Registers tasks now. -/
def registerAll : List Spec → Dispatcher → Except Fault Dispatcher
  | [], s => .ok s
  | spec :: rest, s =>
    match Task.ofSpec spec with
    | .error fault => .error fault
    | .ok task =>
      match s.register (some task) s.clock with
      | .error fault => .error fault
      | .ok s => registerAll rest s

/-- The dispatcher at the start. -/
def setUp (o : Options) : Except Fault Dispatcher :=
  match (Dispatcher.create o.workers).bind (registerAll (collectors o.overload)) with
  | .error fault => .error fault
  | .ok s => .ok (((s.setMode o.mode).setContention true).setEnabled true)

/-! ## The printer -/

/-- The time from one table to the next. -/
def tablePeriod : Millis := .ofSeconds 1

def print (d : Demo) : Demo := { d with tables := Table.ofDispatcher d.dispatcher :: d.tables }

/-- How many tables come due up to an instant, at the most. -/
def tablesDue (d : Demo) (instant : Instant) : Nat :=
  ((instant.since d.nextTable).toInt / tablePeriod.nanos.toInt + 1).toNat

/-- The control thread sleeps up to an instant; of the sleepers that wake at the same time, the
printer comes first. -/
def sleepUntil (instant : Instant) : Nat → Demo → Demo
  | 0, d => { d with dispatcher := d.dispatcher.sleepUntil instant }
  | n + 1, d =>
    if d.nextTable ≤ instant then
      let dispatcher := { d.dispatcher.wakeAll (· < d.nextTable) with clock := d.nextTable }
      let printed := { d with dispatcher }.print
      sleepUntil instant n { printed with nextTable := d.nextTable.after tablePeriod }
    else { d with dispatcher := d.dispatcher.sleepUntil instant }

/-! ## The run -/

def host : Host Demo :=
  Dispatcher.hostWithin dispatcher (fun d dispatcher => { d with dispatcher }) fun length d =>
    let instant := d.dispatcher.clock.after length
    .slept (sleepUntil instant (d.tablesDue instant) d)

/-- The most rounds that fit into a number of seconds: no interval is shorter than a millisecond. -/
def maxRounds (seconds : Nat) : Nat := 1000 * seconds + 1

/-- Runs the collectors for the seconds asked for, and prints a last table. -/
def perform (o : Options) (s : Dispatcher) : Ended × Demo :=
  let d : Demo := { dispatcher := s, nextTable := s.clock.after tablePeriod }
  let (ended, d) := host.run (some (.ofSeconds o.seconds)) (maxRounds o.seconds) d
  (ended, d.print)

/-- The line that tells of a failure. -/
def failureLine (what : String) : Line := ⟨.critical, "Collector scheduler failed: " ++ what⟩

/-- The exit code of a run, and the last line of its log. -/
def conclusion : Ended → Nat × Line
  | .exit why =>
    (if why = .criticalBlocked then 1 else 0, ⟨.info, "Collector scheduler exited: " ++ why.name⟩)
  | .failed fault => (1, failureLine fault.message)
  | .halted | .unfinished => (1, failureLine "the dispatch loop did not end")

def runWith (o : Options) : Outcome :=
  match setUp o with
  | .error fault =>
    { exitCode := 1, log := [failureLine fault.message].filter (·.passes o.logLevel) }
  | .ok s =>
    let (ended, d) := perform o s
    let (exitCode, last) := conclusion ended
    { exitCode
      output := String.join (History.all d.tables)
      log := (History.all (last :: d.dispatcher.log)).filter (·.passes o.logLevel)
      workerLog := (History.all d.dispatcher.workerLog).filter (·.passes o.logLevel) }

def usage (program : String) : String :=
  "usage: " ++ program ++ " [--mode rca|telemetry|dual] [--workers N] [--seconds N] [--overload]" ++
    " [--log-level trace|debug|info|warn|error]\n"

/-- Runs the demonstration with a command line, the program's name included. -/
def run (arguments : List String) : Outcome :=
  match Options.ofArguments? arguments with
  | some o => runWith o
  | none => { exitCode := 2, errors := usage (Text.untilNul (arguments.headD "")) }

end Demo

end Cadence

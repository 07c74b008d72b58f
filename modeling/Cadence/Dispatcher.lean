import Cadence.Scheduler
import Cadence.Sink

/-!
A scheduler at work: with the clock, the destination of its events, and the logs of the control
thread and of the workers.

Here are the operations of the control thread that do not evaluate tasks: registration, start, and
the controls, which are logged when they change something.
-/

namespace Cadence

/-- A scheduler and its surroundings. -/
structure Dispatcher where
  clock : Instant := .epoch
  scheduler : Scheduler
  /-- The destination of its events. -/
  sink : Sink := {}
  log : History Line := []
  workerLog : History Line := []
  deriving DecidableEq, Repr

namespace Dispatcher

/-- Makes a dispatcher at the epoch. -/
def create (workers : Nat) : Except Fault Dispatcher :=
  (Scheduler.create workers).map fun scheduler => { scheduler }

/-- The control thread logs a line. -/
def note (s : Dispatcher) (level : Level) (text : String) : Dispatcher :=
  { s with log := ⟨level, text⟩ :: s.log }

def modifyScheduler (s : Dispatcher) (f : Scheduler → Scheduler) : Dispatcher :=
  { s with scheduler := f s.scheduler }

/-- Registers a task (`Scheduler::add_task`); what is reported is the fault, if the task is refused. -/
def register (s : Dispatcher) (task : Option Task) (instant : Instant) : Except Fault Dispatcher :=
  match (s.scheduler.register task instant).fault? with
  | some fault => .error fault
  | none => .ok { s with scheduler := (s.scheduler.register task instant).scheduler }

/-- The control thread logs a line under a condition. -/
def noteWhen (s : Dispatcher) (condition : Bool) (level : Level) (text : String) : Dispatcher :=
  if condition then s.note level text else s

/-- What is logged when the pool has been made. -/
def startText (s : Scheduler) : String :=
  "Collector scheduler started: " ++ toString s.entries.length ++ " collectors, " ++
    toString s.workers ++ " workers, min interval " ++ toString s.minInterval.count.toInt ++ "ms"

/-- Makes the pool, unless it exists (`Scheduler::start`). -/
def start (s : Dispatcher) : Dispatcher :=
  if s.scheduler.started then s
  else
    let warned := s.noteWhen s.scheduler.entries.isEmpty .warn
      "Starting collector scheduler with no registered collectors"
    (warned.modifyScheduler Scheduler.start).note .info (startText s.scheduler)

/-- Enables or disables the evaluation of due tasks (`Scheduler::set_enabled`).  A change is logged. -/
def setEnabled (s : Dispatcher) (on : Bool) : Dispatcher :=
  (s.noteWhen (s.scheduler.enabled ≠ on) .info
    ("Collector scheduler " ++ if on then "enabled" else "disabled")).modifyScheduler
      fun scheduler => { scheduler with enabled := on }

/-- Sets the collector mode (`Scheduler::set_mode`).  A change is logged. -/
def setMode (s : Dispatcher) (mode : Mode) : Dispatcher :=
  (s.noteWhen (s.scheduler.mode ≠ mode) .info
    ("Collector mode " ++ s.scheduler.mode.name ++ " -> " ++ mode.name)).modifyScheduler
      fun scheduler => { scheduler with mode }

/-- Sets whether contention is monitored; this is not logged. -/
def setContention (s : Dispatcher) (on : Bool) : Dispatcher :=
  s.modifyScheduler (·.setContention on)

/-- Sets the health of a task (`Task::set_state`). -/
def setHealth (s : Dispatcher) (name : String) (health : Health) : Dispatcher :=
  s.modifyScheduler (·.modifyTask name fun task => { task with health })

def permit (s : Dispatcher) (name : String) : Dispatcher :=
  s.modifyScheduler (·.modifyTask name Task.permit)

def addHook (s : Dispatcher) (hook : Hook) : Dispatcher :=
  { s with sink := { s.sink with hooks := s.sink.hooks ++ [hook] } }

def advance (s : Dispatcher) (ns : Int64) : Dispatcher := { s with clock := s.clock.advance ns }

/-- Moves the clock up to an instant, if it is behind. -/
def raiseClock (s : Dispatcher) (instant : Instant) : Dispatcher :=
  { s with clock := s.clock.later instant }

/-- Does what an action says, unless it fails; then nothing happens. -/
def act (s : Dispatcher) : Action → Except Fault Dispatcher
  | .setMode mode => .ok (s.setMode mode)
  | .setEnabled on => .ok (s.setEnabled on)
  | .setContention on => .ok (s.setContention on)
  | .setHealth name health => .ok (s.setHealth name health)
  | .permit name => .ok (s.permit name)
  | .advance ns => .ok (s.advance ns)
  | .raise what => .error (.raised what)

end Dispatcher

end Cadence

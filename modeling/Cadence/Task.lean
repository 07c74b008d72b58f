import Cadence.Capabilities
import Cadence.Fault
import Cadence.Health
import Cadence.Log
import Cadence.Mode
import Cadence.Stats
import Cadence.Time

/-!
Tasks: a body that runs at every interval, and the account of its runs.

A task is marked with its start time before it is handed to a worker; the worker enters the body,
and completes the run when the body ends, however it ends.
-/

namespace Cadence

/-- What a body waits for once its work is done. -/
inductive Wait
  | nothing
  /-- A permit of its task, which it uses up. -/
  | permit
  | sleep (length : Millis)
  deriving DecidableEq, Repr

/-- How a body ends. -/
inductive Ending
  | returns
  | fails (what : String)
  /-- It fails in a way that says nothing. -/
  | failsSilently
  deriving DecidableEq, Repr

/-- Whether a body ended in failure. -/
def Ending.failed : Ending → Bool
  | returns => false
  | fails _ | failsSilently => true

/-- What a task does when it runs: it works, waits, and ends. -/
structure Body where
  /-- Nanoseconds of work, by which the clock moves on. -/
  work : Int64 := 0
  wait : Wait := .nothing
  ending : Ending := .returns
  /-- Time it takes on its worker's own clock alone. -/
  ownTime : Millis := ⟨0⟩
  /-- Further own time while contention is monitored. -/
  samplingTime : Millis := ⟨0⟩
  deriving DecidableEq, Repr

/-- A task as it is asked for. -/
structure Spec where
  name : String
  /-- The time from one slot to the next. -/
  interval : Millis
  capabilities : Capabilities := .none
  body : Option Body
  deriving DecidableEq, Repr

/-- What a body sees of its task on entry. -/
structure Visit where
  /-- The marked start time. -/
  start : Instant
  busy : Bool
  contention : Bool
  deriving DecidableEq, Repr

/-- A task. -/
structure Task where
  name : String
  interval : Millis
  capabilities : Capabilities
  body : Body
  name_ne : name ≠ ""
  /-- Its slots are apart. -/
  interval_pos : 0 < interval.count
  /-- The instant it was last marked for. -/
  startTime : Instant := .epoch
  /-- Whether it was marked and its run has not been completed. -/
  inProgress : Bool := false
  health : Health := .healthy
  contention : Bool := false
  /-- Permits given and not used up. -/
  permits : Nat := 0
  stats : Stats := {}
  /-- The entries of its body. -/
  visits : History Visit := []
  deriving DecidableEq, Repr

namespace Body

/-- When a body entered at `began` wakes from its sleep, if it sleeps. -/
def wakeTime? (b : Body) (began : Instant) : Option Instant :=
  match b.wait with
  | .sleep length => some ((began.advance b.work).after length)
  | .nothing | .permit => none

/-- Whether a body entered at `began` can end, at an instant and with a number of permits. -/
def ready (b : Body) (began now : Instant) (permits : Nat) : Bool :=
  match b.wait with
  | .nothing => true
  | .permit => 0 < permits
  | .sleep _ => (b.wakeTime? began).all (· ≤ now)

end Body

namespace Task

/-- Makes a task (`Task::Task`).  It needs a name, a positive interval and a body; the first that is missing is
reported. -/
def ofSpec (spec : Spec) : Except Fault Task :=
  if name_ne : spec.name = "" then .error .emptyName
  else if interval_pos : 0 < spec.interval.count then
    match spec.body with
    | none => .error (.noBody spec.name)
    | some body =>
      .ok { name := spec.name, interval := spec.interval, capabilities := spec.capabilities, body
            name_ne, interval_pos }
  else .error (.intervalNotPositive spec.name)

/-- Whether the task has a capability of a set (`Task::has`). -/
def has (t : Task) (c : Capabilities) : Bool := t.capabilities.has c

/-- Whether a mode admits the task (`can_schedule`). -/
def admittedBy (t : Task) (m : Mode) : Bool := m.admits (t.has .telemetry)

/-- What an overrun of the task comes to (`on_overrun`). -/
def overrun (t : Task) : Overrun := t.health.overrun (t.has .critical)

/-- Marks the task as in progress from an instant on (`Task::set_start_time`). -/
def mark (t : Task) (instant : Instant) : Task :=
  { t with startTime := instant, inProgress := true }

/-- The body is entered, and sees its task; `Task::run` begins with this. -/
def enter (t : Task) : Task :=
  { t with visits := ⟨t.startTime, t.inProgress, t.contention⟩ :: t.visits }

def permit (t : Task) : Task := { t with permits := t.permits + 1 }

/-- The time a run takes on its worker's own clock alone. -/
def ownTime (t : Task) : Int64 :=
  t.body.ownTime.nanos + (if t.contention then t.body.samplingTime.nanos else 0)

/-- What is observed of a run entered at `began` that ends at `now`. -/
def observation (t : Task) (began now : Instant) : Observation where
  latency := began.since t.startTime
  exec := (now.advance t.ownTime).since began
  failed := t.body.ending.failed

/-- Completes a run entered at `began`, as `Task::run` does at the end: a permit it waited for is used up, the
run is accounted for, and the task is no longer in progress. -/
def complete (t : Task) (began now : Instant) : Task :=
  { t with
    permits := if t.body.wait = .permit then t.permits - 1 else t.permits
    stats := t.stats.observe (t.observation began now)
    inProgress := false }

/-- What a run leaves in the log. -/
def complaints (t : Task) : List Line :=
  match t.body.ending with
  | .returns => []
  | .fails what => [⟨.err, "Collector " ++ t.name ++ " failed: " ++ Text.untilNul what⟩]
  | .failsSilently => [⟨.err, "Collector " ++ t.name ++ " failed with a non-standard exception"⟩]

end Task

end Cadence

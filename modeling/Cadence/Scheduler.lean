import Cadence.Pool
import Cadence.Task

/-!
The scheduler: the registered tasks with their due times, the operating controls, and the pool that
runs the tasks.

Tasks are registered under distinct names until the pool exists.  The pool is made on first need,
with room in its backlog for every task, because no task is ever handed over while it is in
progress.
-/

namespace Cadence

/-- A registered task (`TaskRuntime`). -/
structure Entry where
  task : Task
  /-- The instant its next slot comes due. -/
  due : Instant
  deriving DecidableEq, Repr

/-- The slot is taken, whether or not the task runs in it; `Scheduler::dispatch` begins with this. -/
def Entry.consumeSlot (e : Entry) : Entry := { e with due := e.due.after e.task.interval }

/-- A run of a task that a worker holds. -/
structure Run where
  name : String
  /-- The instant its body was entered. -/
  began : Instant
  deriving DecidableEq, Repr

structure Scheduler where
  workers : Nat
  workers_pos : 0 < workers
  /-- The tasks, in the order of their registration. -/
  entries : List Entry := []
  /-- The shortest interval of a task. -/
  minInterval : Millis := .longest
  /-- Whether due tasks are evaluated. -/
  enabled : Bool := false
  mode : Mode := .rca
  /-- Whether tasks are to monitor contention. -/
  contention : Bool := false
  /-- The pool, once it exists. -/
  pool : Option (Pool String Run) := none
  deriving DecidableEq, Repr

namespace Scheduler

/-- How many workers a scheduler has if nothing else is asked for. -/
def defaultWorkers : Nat := 5

/-- Makes a scheduler (`Scheduler::Scheduler`).  It needs a worker. -/
def create (workers : Nat) : Except Fault Scheduler :=
  if workers_pos : 0 < workers then .ok { workers, workers_pos } else .error .noWorkers

/-- Whether the pool exists (`Scheduler::started`). -/
def started (s : Scheduler) : Bool := s.pool.isSome

/-- The names of the tasks, in the order of their registration. -/
def names (s : Scheduler) : List String := s.entries.map (·.task.name)

def entry? (s : Scheduler) (name : String) : Option Entry := s.entries.find? (·.task.name = name)

def task? (s : Scheduler) (name : String) : Option Task := (s.entry? name).map (·.task)

/-- When the next slot of the task of a name comes due (`Scheduler::next_due`). -/
def due? (s : Scheduler) (name : String) : Option Instant := (s.entry? name).map (·.due)

def modifyEntry (s : Scheduler) (name : String) (f : Entry → Entry) : Scheduler :=
  { s with entries := s.entries.map fun e => if e.task.name = name then f e else e }

def modifyTask (s : Scheduler) (name : String) (f : Task → Task) : Scheduler :=
  s.modifyEntry name fun e => { e with task := f e.task }

/-! ## Registration -/

/-- Why no task of this name can be registered, if there is a reason: what `Scheduler::add_task` checks of a
task. -/
def refusal? (s : Scheduler) (name : String) : Option Fault :=
  if s.started then some (.alreadyStarted name)
  else if name ∈ s.names then some (.duplicateName name)
  else none

/-- The entries and the shortest interval with one more task, whose first slot comes due an interval
after `instant`: what `Scheduler::add_task` changes. -/
def enroll (s : Scheduler) (task : Task) (instant : Instant) : Scheduler :=
  { s with
    entries := s.entries ++
      [⟨{ task with contention := s.contention }, instant.after task.interval⟩]
    minInterval := s.minInterval.shorter task.interval }

/-- What a registration comes to. -/
structure Registration where
  /-- Why it is refused, if it is. -/
  fault? : Option Fault := none
  /-- The task that was offered, as it is left. -/
  offered : Option Task
  scheduler : Scheduler
  deriving DecidableEq, Repr

/-- Registers a task (`Scheduler::add_task`), if there is one and nothing speaks against it.  Then the task
takes over whether contention is to be monitored. -/
def register (s : Scheduler) (offered : Option Task) (instant : Instant) : Registration :=
  match offered with
  | none => { fault? := some .noTask, offered, scheduler := s }
  | some task =>
    match s.refusal? task.name with
    | some fault => { fault? := some fault, offered, scheduler := s }
    | none =>
      { offered := some { task with contention := s.contention }, scheduler := s.enroll task instant }

/-! ## The pool -/

/-- The most jobs that can wait: one for each task, and at least one.  `Scheduler::start` gives the pool this
room. -/
def backlogCapacity (s : Scheduler) : Nat := max 1 s.entries.length

/-- The pool, or the one that is made now. -/
def poolOrNew (s : Scheduler) : Pool String Run :=
  s.pool.getD { workers := s.workers, capacity := s.backlogCapacity }

/-- Makes the pool, unless it exists (`Scheduler::start`). -/
def start (s : Scheduler) : Scheduler := { s with pool := some s.poolOrNew }

/-- Hands a task to the pool, which `Scheduler::dispatch` does at the end. -/
def submit (s : Scheduler) (name : String) : Except Fault Scheduler :=
  (s.poolOrNew.submit name).map fun pool => { s with pool := some pool }

/-! ## Controls -/

/-- Sets whether contention is monitored, for the scheduler and every task
(`Scheduler::set_contention_monitoring`). -/
def setContention (s : Scheduler) (on : Bool) : Scheduler :=
  { s with
    entries := s.entries.map fun e => { e with task := { e.task with contention := on } }
    contention := on }

end Scheduler

end Cadence

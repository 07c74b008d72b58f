import Cadence.Text

/-!
Why an operation is refused, and how the refusal reads.
-/

namespace Cadence

/-- The causes of a refusal. -/
inductive Fault
  | emptyName
  /-- A task whose interval is zero or less. -/
  | intervalNotPositive (name : String)
  | noBody (name : String)
  | noWorkers
  | noTask
  /-- A registration once the pool exists. -/
  | alreadyStarted (name : String)
  | duplicateName (name : String)
  | noThreads
  | noBacklog
  /-- A job for a pool that was shut down. -/
  | shuttingDown
  /-- A job for a pool with no room left. -/
  | backlogFull (capacity : Nat)
  /-- A failure raised by the destination of the events. -/
  | raised (what : String)
  deriving DecidableEq, Repr

namespace Fault

/-- The wording of a fault, before it is cut. -/
def wording : Fault → String
  | emptyName => "task name must not be empty"
  | intervalNotPositive name => "task " ++ name ++ ": interval must be positive"
  | noBody name => "task " ++ name ++ ": no run function"
  | noWorkers => "scheduler needs at least one worker"
  | noTask => "cannot register a null task"
  | alreadyStarted name => "cannot register " ++ name ++ " after the scheduler has started"
  | duplicateName name => "duplicate collector name " ++ name
  | noThreads => "worker pool needs at least one thread"
  | noBacklog => "worker pool backlog must be positive"
  | shuttingDown => "worker pool is shutting down"
  | backlogFull capacity => "worker pool backlog full (" ++ toString capacity ++ ")"
  | raised what => what

/-- The text of a fault: its wording, which is a terminated text. -/
def message (f : Fault) : String := Text.untilNul f.wording

end Fault

end Cadence

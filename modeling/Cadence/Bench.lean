import Cadence.Task

/-!
A task on the bench: it is marked and run by hand, on the thread that asks, and the clock is set by
hand as well.
-/

namespace Cadence

/-- A task, the clock, and what was logged. -/
structure Bench where
  task : Task
  clock : Instant := .epoch
  log : History Line := []
  deriving DecidableEq, Repr

/-- What can be done to a task on the bench. -/
inductive Bench.Step
  | mark (instant : Instant)
  | run
  | setClock (instant : Instant)
  | setHealth (health : Health)
  | setContention (on : Bool)
  | permit
  deriving DecidableEq, Repr

namespace Bench

/-- Runs the task.  A body that sleeps takes the clock to its wake-up; one that waits for a permit
that was not given does not end. -/
def run? (b : Bench) : Option Bench :=
  let began := b.clock
  let task := b.task.enter
  let worked := (task.body.wakeTime? began).getD (began.advance task.body.work)
  if task.body.ready began worked task.permits then
    some { task := task.complete began worked, clock := worked
           log := task.complaints.reverse ++ b.log }
  else none

/-- Does one step; `none` if it does not end. -/
def perform? (b : Bench) : Step → Option Bench
  | .mark instant => some { b with task := b.task.mark instant }
  | .run => b.run?
  | .setClock instant => some { b with clock := instant }
  | .setHealth health => some { b with task := { b.task with health } }
  | .setContention on => some { b with task := { b.task with contention := on } }
  | .permit => some { b with task := b.task.permit }

def performAll? (b : Bench) (steps : List Step) : Option Bench := steps.foldlM perform? b

end Bench

end Cadence

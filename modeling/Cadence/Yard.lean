import Cadence.Log
import Cadence.Pool

/-!
A pool whose jobs may wait at gates.

A gated job blocks its worker until its gate is open, and a gate that was opened stays open.  After
each step the workers go on until every one of them is blocked or out of work.
-/

namespace Cadence

inductive Job.Kind
  /-- It ends at once. -/
  | quick
  /-- It waits for its gate. -/
  | gated
  /-- It ends at once and reports the name of its thread. -/
  | named
  deriving DecidableEq, Repr

structure Job where
  id : String
  kind : Job.Kind
  deriving DecidableEq, Repr

/-- What a job reports when it has finished. -/
def Job.report (j : Job) : String :=
  match j.kind with
  | .quick | .gated => j.id
  | .named => j.id ++ "@" ++ Pool.threadName

/-- A pool of jobs, the gates that are open, and the jobs that finished. -/
structure Yard where
  pool : Pool Job Job
  /-- The jobs whose gate is open. -/
  opened : List String := []
  /-- The jobs that finished. -/
  finished : History Job := []
  deriving DecidableEq, Repr

/-- What can be asked of the pool. -/
inductive Yard.Step
  | submit (job : Job)
  | unlock (id : String)
  | close
  deriving DecidableEq, Repr

namespace Yard

def create (workers capacity : Nat) : Except Fault Yard :=
  (Pool.create workers capacity).map fun pool => { pool }

/-- Whether a job that is held can finish. -/
def ready (y : Yard) (j : Job) : Bool := j.kind ≠ .gated || y.opened.contains j.id

def take? (y : Yard) : Option Yard := (y.pool.take? id).map fun (_, pool) => { y with pool }

def finish (y : Yard) (j : Job) : Yard :=
  { y with pool := y.pool.release j, finished := j :: y.finished }

/-- A worker finishes the first job held that is not blocked. -/
def finish? (y : Yard) : Option Yard := (y.pool.held.find? y.ready).map y.finish

/-- A worker makes a step: it finishes what it can, and takes a job otherwise. -/
def work? (y : Yard) : Option Yard := y.finish?.or y.take?

theorem weight_work? {y z : Yard} (worked : y.work? = some z) : z.pool.weight < y.pool.weight := by
  unfold work? finish? at worked
  cases found : y.pool.held.find? y.ready with
  | some job =>
    simp only [found, Option.map_some, Option.some_or, Option.some.injEq] at worked
    subst worked
    have := Pool.weight_release (List.mem_of_find?_eq_some found)
    simp only [finish]
    omega
  | none =>
    simp only [found, Option.map_none, Option.none_or, take?, Option.map_eq_some_iff] at worked
    obtain ⟨⟨job, pool⟩, taken, rfl⟩ := worked
    have := Pool.weight_take? taken
    simp only
    omega

/-- The workers go on until none of them can make a step. -/
def settle (y : Yard) : Yard := exhaust work? y.pool.weight y

/-- Once the workers have settled, none of them can make a step. -/
theorem work?_settle (y : Yard) : y.settle.work? = none :=
  step?_exhaust (fun _ _ => weight_work?) y.pool.weight y (Nat.le_refl _)

/-- Does what was asked, without the work that follows from it. -/
def apply (y : Yard) : Step → Except Fault Yard
  | .submit job => (y.pool.submit job).map fun pool => { y with pool }
  | .unlock id => .ok { y with opened := id :: y.opened }
  | .close => .ok { y with pool := y.pool.close }

/-- Does what was asked, and lets the workers settle.  A refusal changes nothing. -/
def perform (y : Yard) (step : Step) : Except Fault Yard := (y.apply step).map settle

/-- The jobs at their gates, in the order of their bytes. -/
def blocked (y : Yard) : List String := Text.sorted (y.pool.held.map (·.id))

/-- The reports of the jobs finished since `before`: in order if there is one worker, and otherwise
in the order of their bytes. -/
def reports (before y : Yard) : List String :=
  let texts := (History.since before.finished y.finished).map Job.report
  if y.pool.workers = 1 then texts else Text.sorted texts

end Yard

end Cadence

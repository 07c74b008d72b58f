import Cadence.Yard

/-!
Interleavings of the workers of a yard with whoever uses its pool.

A `Yard.Move` is one step of a worker, or something that is asked of the pool.  `Yard.Runs` says that some
sequence of moves leads from one yard to another, with its history.
-/

namespace Cadence.Yard

/-- A step that can be made. -/
inductive Move
  /-- Something is asked of the pool, or a gate is opened. -/
  | ask (step : Step)
  /-- A worker takes the front job. -/
  | take
  /-- A worker finishes a job. -/
  | finish (job : Job)
  deriving DecidableEq, Repr

/-- Makes a move, if it can be made.  A refusal leaves everything as it was. -/
def step? (y : Yard) : Move → Option Yard
  | .ask step =>
    match y.apply step with
    | .ok z => some z
    | .error _ => some y
  | .take => y.take?
  | .finish job => if job ∈ y.pool.held ∧ y.ready job then some (y.finish job) else none

/-- A step of a run: the yard before it, and the move that is made. -/
structure Stage where
  /-- The yard before. -/
  before : Yard
  /-- The move. -/
  move : Move
  deriving DecidableEq, Repr

/-- Some moves lead from one yard to another, with this history. -/
inductive Runs (first : Yard) : History Stage → Yard → Prop
  | refl : Runs first [] first
  | step {h : History Stage} {y z : Yard} {move : Move} (before : Runs first h y)
    (made : y.step? move = some z) : Runs first (⟨y, move⟩ :: h) z

/-! ## What happened to the jobs -/

namespace Stage

/-- The job that was submitted and not refused. -/
def accepted? (stage : Stage) : Option Job :=
  match stage.move with
  | .ask (.submit job) => (stage.before.pool.submit job).toOption.map fun _ => job
  | .ask (.unlock _) | .ask .close | .take | .finish _ => none

/-- The job that a worker took. -/
def started? (stage : Stage) : Option Job :=
  match stage.move with
  | .take => stage.before.pool.backlog.head?
  | .ask _ | .finish _ => none

/-- The jobs that waited when the pool was shut down. -/
def dropped (stage : Stage) : List Job :=
  match stage.move with
  | .ask .close => stage.before.pool.backlog
  | .ask (.submit _) | .ask (.unlock _) | .take | .finish _ => []

end Stage

end Cadence.Yard

namespace Cadence.History

/-- The jobs that were submitted and not refused, in the order of their submission. -/
def accepted (h : History Yard.Stage) : List Job := h.all.filterMap Yard.Stage.accepted?

/-- The jobs that workers took, in the order in which they took them. -/
def started (h : History Yard.Stage) : List Job := h.all.filterMap Yard.Stage.started?

/-- The jobs that were dropped. -/
def dropped (h : History Yard.Stage) : List Job := h.all.flatMap Yard.Stage.dropped

end Cadence.History

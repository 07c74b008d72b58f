import Cadence.Dispatcher

/-!
The workers of a dispatcher.

A free worker takes the front job of the backlog and enters the body of its task; the run is
finished when the body can end.  `Dispatcher.settle` lets the workers go on until none of them can
make a step: then every run that is left waits, and the backlog is empty unless every worker is
waiting.
-/

namespace Cadence.Dispatcher

/-- The runs that the workers hold. -/
def held (s : Dispatcher) : List Run := (s.scheduler.pool.map (·.held)).getD []

/-- Whether the body of a run can end now. -/
def ready (s : Dispatcher) (run : Run) : Bool :=
  (s.scheduler.task? run.name).any fun task => task.body.ready run.began s.clock task.permits

/-- A worker enters the body of a task (`Task::run`): the body sees its task, and does its work. -/
def enter (s : Dispatcher) (name : String) : Dispatcher :=
  let entered := s.modifyScheduler (·.modifyTask name Task.enter)
  entered.advance (((s.scheduler.task? name).map (·.body.work)).getD 0)

/-- A worker takes the front job (`WorkerPool::worker_loop`). -/
def take? (s : Dispatcher) : Option Dispatcher :=
  (s.scheduler.pool.bind (·.take? fun name => ⟨name, s.clock⟩)).map fun (name, pool) =>
    (s.modifyScheduler fun scheduler => { scheduler with pool := some pool }).enter name

/-- A worker finishes a run that it holds: the worker is free again, and the run is completed, as at the end
of `Task::run`. -/
def finish (s : Dispatcher) (run : Run) : Dispatcher :=
  let complaints := ((s.scheduler.task? run.name).map Task.complaints).getD []
  let freed := s.modifyScheduler fun scheduler =>
    { scheduler with pool := scheduler.pool.map (·.release run) }
  { freed.modifyScheduler (·.modifyTask run.name fun task => task.complete run.began s.clock) with
    workerLog := complaints.reverse ++ s.workerLog }

/-- A worker finishes the first run held that can end. -/
def finish? (s : Dispatcher) : Option Dispatcher := (s.held.find? s.ready).map s.finish

/-- A worker makes a step: it finishes a run if it can, and takes a job otherwise. -/
def work? (s : Dispatcher) : Option Dispatcher := s.finish?.or s.take?

/-- How many steps the workers can make at the most. -/
def weight (s : Dispatcher) : Nat := (s.scheduler.pool.map Pool.weight).getD 0

theorem weight_take? {s t : Dispatcher} (taken : s.take? = some t) : t.weight < s.weight := by
  simp only [take?, Option.map_eq_some_iff, Option.bind_eq_some_iff] at taken
  obtain ⟨⟨name, pool⟩, ⟨before, present, taken⟩, rfl⟩ := taken
  have := Pool.weight_take? taken
  simp only [weight, enter, advance, modifyScheduler, Scheduler.modifyTask, Scheduler.modifyEntry,
    Option.map_some, Option.getD_some, present]
  omega

theorem weight_finish {s : Dispatcher} {run : Run} (holds : run ∈ s.held) :
    (s.finish run).weight < s.weight := by
  unfold held at holds
  cases present : s.scheduler.pool with
  | none => simp [present] at holds
  | some pool =>
    simp only [present, Option.map_some, Option.getD_some] at holds
    have := Pool.weight_release holds
    simp only [weight, finish, modifyScheduler, Scheduler.modifyTask, Scheduler.modifyEntry,
      Option.map_some, Option.getD_some, present]
    omega

theorem weight_work? {s t : Dispatcher} (worked : s.work? = some t) : t.weight < s.weight := by
  unfold work? finish? at worked
  cases found : s.held.find? s.ready with
  | some run =>
    simp only [found, Option.map_some, Option.some_or, Option.some.injEq] at worked
    subst worked
    exact weight_finish (List.mem_of_find?_eq_some found)
  | none =>
    simp only [found, Option.map_none, Option.none_or] at worked
    exact weight_take? worked

/-- The workers go on until none of them can make a step. -/
def settle (s : Dispatcher) : Dispatcher := exhaust work? s.weight s

/-- Once the workers have settled, none of them can make a step. -/
theorem work?_settle (s : Dispatcher) : s.settle.work? = none :=
  step?_exhaust (fun _ _ => weight_work?) s.weight s (Nat.le_refl _)

/-- Does what an action says, and lets the workers settle. -/
def obey (s : Dispatcher) (action : Action) : Except Fault Dispatcher := (s.act action).map settle

/-! ## Sleeping bodies -/

/-- The instants at which the bodies that sleep wake. -/
def wakeTimes (s : Dispatcher) : List Instant :=
  s.held.filterMap fun run => (s.scheduler.task? run.name).bind (·.body.wakeTime? run.began)

/-- The next body wakes that does so at an instant within `limit`; the clock stands at that instant
while the workers settle. -/
def wake? (limit : Instant → Bool) (s : Dispatcher) : Option Dispatcher :=
  (Instant.earliest? (s.wakeTimes.filter limit)).map fun next =>
    { s with clock := s.clock.later next }.settle

theorem ready_of_wakeTime {s : Dispatcher} {run : Run} {t : Instant}
    (wakes : (s.scheduler.task? run.name).bind (·.body.wakeTime? run.began) = some t)
    (come : t ≤ s.clock) : s.ready run = true := by
  obtain ⟨task, present, wakes⟩ := Option.bind_eq_some_iff.mp wakes
  unfold ready Body.ready
  cases waits : task.body.wait with
  | nothing => simp [Body.wakeTime?, waits] at wakes
  | permit => simp [Body.wakeTime?, waits] at wakes
  | sleep length => simp [present, waits, wakes, come]

theorem weight_settle_lt {s : Dispatcher} {run : Run} (holds : run ∈ s.held)
    (ready : s.ready run = true) : s.settle.weight < s.weight := by
  have work : ∃ t, s.work? = some t := by
    cases found : s.held.find? s.ready with
    | some first => exact ⟨s.finish first, by simp [work?, finish?, found]⟩
    | none => exact absurd ready (List.find?_eq_none.mp found run holds)
  obtain ⟨t, worked⟩ := work
  have heavy := weight_work? worked
  exact weight_exhaust_lt (fun _ _ => weight_work?) (by omega) worked

theorem weight_wake? {limit : Instant → Bool} {s t : Dispatcher} (woke : s.wake? limit = some t) :
    t.weight < s.weight := by
  obtain ⟨next, found, rfl⟩ := Option.map_eq_some_iff.mp woke
  obtain ⟨run, holds, wakes⟩ :=
    List.mem_filterMap.mp (List.mem_filter.mp (Instant.mem_of_earliest? found)).1
  exact weight_settle_lt (s := { s with clock := s.clock.later next }) holds
    (ready_of_wakeTime wakes (Instant.le_later s.clock next))

/-- Bodies wake in order, as long as they do so within `limit`. -/
def wakeAll (limit : Instant → Bool) (s : Dispatcher) : Dispatcher :=
  exhaust (wake? limit) s.weight s

/-- The control thread sleeps up to an instant. -/
def sleepUntil (s : Dispatcher) (instant : Instant) : Dispatcher :=
  { s.wakeAll (· ≤ instant) with clock := instant }

end Cadence.Dispatcher

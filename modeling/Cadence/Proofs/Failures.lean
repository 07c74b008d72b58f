import Cadence.Proofs.Attribution
import Cadence.Proofs.ExcusedFailures

/-!
A body that fails is scheduled like one that returns.

Two runs whose moves differ in the endings of bodies alone pass through moments that are the same once
every failure is excused (`Moment.Passes.excused`).  The failures of a task are those of its runs
(`Moment.Passes.blamed`), and with the complaints of the workers they are all that is left of the
difference (`Moment.failures_leave_schedule`).
-/

namespace Cadence

/-! ## Counting failures -/

/-- Each observation of a failure counts once. -/
theorem Stats.failures_observe (observations : List Observation) (s : Stats) :
    (observations.foldl Stats.observe s).failures =
      s.failures + UInt64.ofNat (observations.countP (·.failed)) := by
  induction observations generalizing s with
  | nil => simp
  | cons o rest ih =>
    rw [List.foldl_cons, ih, List.countP_cons]
    cases failed : o.failed with
    | false => simp [Stats.observe, failed]
    | true =>
      simp only [Stats.observe, failed, if_true, UInt64.ofNat_add]
      rw [UInt64.add_assoc, UInt64.add_comm 1]
      rfl

/-- Only the completion of an execution can be a failure. -/
theorem Execution.fails_deeds (done : List Execution) :
    (done.flatMap Execution.deeds).countP Deed.fails =
      (done.map Execution.observation).countP (·.failed) := by
  induction done with
  | nil => rfl
  | cons x rest ih =>
    rw [List.flatMap_cons, List.countP_append, ih, List.map_cons, List.countP_cons, Nat.add_comm]
    congr 1
    cases failed : x.failed <;> simp [deeds, observation, Deed.fails, failed]

theorem Phase.fails_deeds (phase : Phase) : phase.deeds.countP Deed.fails = 0 := by
  cases phase <;> rfl

/-- The step, as if no body ever failed. -/
def Stage.excused (stage : Stage) : Stage := ⟨stage.before.excused, stage.move.excused⟩

namespace Moment

variable {allowed : Move → Prop} {workers : Nat} {scheduler : Scheduler} {h : History Stage}
  {first first' m : Moment}

/-- The failures of a task are those of its completed runs, and those it was registered with. -/
structure Blamed (h : History Stage) (e : Entry) (task : Task) (done : List Deed) : Prop where
  /-- What was done about the task since it was registered. -/
  deeds : h.deeds e.task.name = .enrolled task :: done
  failures : e.task.stats.failures = task.stats.failures + UInt64.ofNat (done.countP Deed.fails)

/-- The failures of a task are counted, in every run. -/
theorem Passes.blamed (created : Scheduler.create workers = .ok scheduler)
    (passed : Passes allowed (initial scheduler) h m) {e : Entry}
    (member : e ∈ m.dispatcher.scheduler.entries) : ∃ task done, Blamed h e task done := by
  obtain ⟨task, done, phase, attributed⟩ := passed.attributed created member
  refine ⟨task, done.flatMap Execution.deeds ++ phase.deeds, attributed.deeds, ?_⟩
  rw [attributed.stats, Stats.failures_observe, List.countP_append, Execution.fails_deeds,
    Phase.fails_deeds, Nat.add_zero]

/-- Moves that differ in the endings of bodies alone lead through the same moments, once every failure
is excused. -/
theorem Passes.excused (passed : Passes allowed first h m) (same : first'.excused = first.excused)
    {moves : History Move} (alike : moves.map Move.excused = h.map (·.move.excused)) :
    ∃ h' m', Passes (fun _ => True) first' h' m' ∧ h'.map Stage.move = moves ∧
      h'.map Stage.excused = h.map Stage.excused ∧ m'.excused = m.excused := by
  induction passed generalizing moves with
  | refl =>
    refine ⟨[], first', .refl, ?_, rfl, same⟩
    exact (List.map_eq_nil_iff.mp alike).symm
  | @step h m next move before may made ih =>
    obtain ⟨move', rest, rfl, replaced, alike⟩ := List.map_eq_cons_iff.mp alike
    obtain ⟨h', m', passed', moved, stages, agree⟩ := ih alike
    have step : (m'.step? move').map Moment.excused = some next.excused := by
      rw [← step?_excused, agree, replaced, step?_excused, made, Option.map_some]
    obtain ⟨next', made', agree'⟩ := Option.map_eq_some_iff.mp step
    refine ⟨⟨m', move'⟩ :: h', next', .step passed' trivial made', ?_, ?_, agree'⟩
    · rw [List.map_cons, moved]
    · rw [List.map_cons, List.map_cons, stages, Stage.excused, Stage.excused, agree, replaced]

/-- Two moments from which everything goes on in the same way, but for the failures of bodies. -/
structure Tantamount (m' m : Moment) : Prop where
  now : m'.excused = m.excused
  /-- A tick that is carried out at once. -/
  tick : ∀ now, (m'.dispatcher.tick now).map id Dispatcher.excused =
    (m.dispatcher.tick now).map id Dispatcher.excused
  /-- A run of the loop, under any script, for any time, on any thread. -/
  loop : ∀ script duration thread,
    (Session.run script duration { dispatcher := m'.dispatcher, thread }).map id Session.excused =
      (Session.run script duration { dispatcher := m.dispatcher, thread }).map id Session.excused

theorem tantamount_of_excused {m' : Moment} (same : m'.excused = m.excused) : m'.Tantamount m := by
  have dispatchers : m'.dispatcher.excused = m.dispatcher.excused :=
    congrArg Moment.dispatcher same
  refine ⟨same, fun now => ?_, fun script duration thread => ?_⟩
  · rw [← Dispatcher.tick_excused, dispatchers, Dispatcher.tick_excused]
  · have sessions : Session.excused { dispatcher := m'.dispatcher, thread } =
        Session.excused { dispatcher := m.dispatcher, thread } :=
      congrArg (fun dispatcher : Dispatcher => ({ dispatcher, thread } : Session)) dispatchers
    rw [← Session.run_excused, sessions, Session.run_excused]

/-- Whatever was done to a scheduler, it can be done as well to one whose tasks have other bodies, if these
work, wait and take as long as the first ones and only end otherwise.  At every step the two are the same,
but for the endings of the bodies, the counts of failures and the complaints of the workers; so are the
ticks and the runs of the loop that follow.  In both, the failures of a task are those of its runs. -/
theorem failures_leave_schedule (created : Scheduler.create workers = .ok scheduler)
    (passed : Passes (fun _ => True) (initial scheduler) h m) {moves : History Move}
    (alike : moves.map Move.excused = h.map (·.move.excused)) :
    ∃ h' m', Passes (fun _ => True) (initial scheduler) h' m' ∧ h'.map Stage.move = moves ∧
      h'.map Stage.excused = h.map Stage.excused ∧ m'.Tantamount m ∧
      (∀ e ∈ m.dispatcher.scheduler.entries, ∃ task done, Blamed h e task done) ∧
      ∀ e ∈ m'.dispatcher.scheduler.entries, ∃ task done, Blamed h' e task done := by
  obtain ⟨h', m', passed', moved, stages, agree⟩ := passed.excused rfl alike
  exact ⟨h', m', passed', moved, stages, tantamount_of_excused agree,
    fun _ member => passed.blamed created member, fun _ member => passed'.blamed created member⟩

namespace Errand

/-- The same errand for a task whose body fails. -/
def failing : History Move := moves.reverse.map fun move =>
  match move with
  | .register task instant => .register (task.map fun task =>
      { task with body := { task.body with ending := .fails "boom" } }) instant
  | move => move

end Errand

/-- The errand of the sample run is done in the same way if the body fails. -/
theorem failures_leave_schedule_sample : ∃ h' m',
    Passes (fun _ => True) (initial Sample.scheduler) h' m' ∧ h'.map Stage.move = Errand.failing ∧
      h'.map Stage.excused = Errand.run.1.map Stage.excused ∧ m'.Tantamount Errand.run.2 := by
  have passed : Passes (fun _ => True) (initial Sample.scheduler) Errand.run.1 Errand.run.2 :=
    passes_lead (fun _ _ => trivial) (by decide +kernel)
  have alike : Errand.failing.map Move.excused = Errand.run.1.map (·.move.excused) := by
    decide +kernel
  obtain ⟨h', m', passed', moved, stages, same, _⟩ :=
    failures_leave_schedule Sample.created passed alike
  exact ⟨h', m', passed', moved, stages, same⟩

end Moment

end Cadence

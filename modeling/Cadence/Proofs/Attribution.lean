import Cadence.Proofs.TaskRuns

/-!
Every execution of a body belongs to one submission, and every submission leads to one execution.

The deeds of a registered task are its registration, then its executions one after the other, each from its
submission to its completion, and then what has become of the latest submission (`Desk.Reflects`).  As
long as that one is under way the task is in progress and keeps the instant of the tick that submitted it,
whatever happens meanwhile; so this is what the body sees on entry, and what its latency is measured from
(`Moment.executions_attributed`).
-/

namespace Cadence

/-- One execution of the body of a task. -/
structure Execution where
  /-- The instant of the tick that handed the task to the pool. -/
  submitted : Instant
  /-- When a worker entered the body. -/
  entered : Instant
  /-- When the worker completed the run, by its own clock. -/
  ended : Instant
  failed : Bool
  deriving DecidableEq, Repr

namespace Execution

variable (x : Execution)

/-- What is done about it, from its submission to its completion. -/
def deeds : List Deed :=
  [.submitted x.submitted, .entered x.entered, .completed x.entered x.ended x.failed]

/-- How late the body was entered, and how long it took. -/
def observation : Observation := ⟨x.entered.since x.submitted, x.ended.since x.entered, x.failed⟩

end Execution

/-- What has become of the latest submission of a task. -/
inductive Phase
  /-- There is none that is not completed. -/
  | rests
  /-- The job waits. -/
  | waits (submitted : Instant)
  /-- A worker is in the body. -/
  | runs (submitted entered : Instant)
  deriving DecidableEq, Repr

namespace Phase

/-- The instant of the tick that made the submission, if it is not completed. -/
def submitted? : Phase → Option Instant
  | rests => none
  | waits submitted | runs submitted _ => some submitted

/-- The instant of the tick that made the submission whose run has begun and is not completed. -/
def running? : Phase → Option Instant
  | rests | waits _ => none
  | runs submitted _ => some submitted

/-- What was done about the submission. -/
def deeds : Phase → List Deed
  | rests => []
  | waits submitted => [.submitted submitted]
  | runs submitted entered => [.submitted submitted, .entered entered]

/-- How many jobs wait on account of it. -/
def waiting : Phase → Nat
  | rests | runs _ _ => 0
  | waits _ => 1

/-- The runs that workers hold on account of it, of the task of a name. -/
def held (name : String) : Phase → List Run
  | rests | waits _ => []
  | runs _ entered => [⟨name, entered⟩]

end Phase

namespace Desk

/-- What is held about the runs of a task reflects its executions and the latest submission. -/
structure Reflects (d : Desk) (name : String) (task : Task) (done : List Execution) (phase : Phase)
    (c : Timecard) : Prop where
  present : d.card = some c
  waiting : d.waiting = phase.waiting
  held : d.held = phase.held name
  /-- The task is marked for the submission that is not completed. -/
  marked : ∀ now, phase.submitted? = some now → c.busy = true ∧ c.start = now
  /-- One observation for each execution. -/
  stats : c.stats = (done.map Execution.observation).foldl Stats.observe task.stats
  /-- On each entry the body saw its submission. -/
  seen : c.seen = ((done.map Execution.submitted ++ phase.running?.toList).map (·, true)).reverse ++
    task.timecard.seen

variable {name : String} {d d' : Desk} {task : Task} {done : List Execution} {phase : Phase}
  {c : Timecard}

/-- A task that was just registered. -/
theorem Reflects.enrolled (waiting : d.waiting = 0) (held : d.held = []) (task : Task) :
    Reflects { d with card := some task.timecard } name task [] .rests task.timecard where
  present := rfl
  waiting := waiting
  held := held
  marked := by simp [Phase.submitted?]
  stats := rfl
  seen := rfl

/-- A task that is handed over has no submission that is not completed. -/
theorem Reflects.submitted (reflects : d.Reflects name task done phase c) (free : c.busy = false)
    (now : Instant) : phase = .rests ∧
      Reflects { d with card := some (c.after (.submitted now)), waiting := d.waiting + 1 } name task
        done (.waits now) (c.after (.submitted now)) := by
  have unmarked : phase.submitted? = none := by
    refine Option.eq_none_iff_forall_ne_some.mpr fun submitted under => ?_
    rw [(reflects.marked submitted under).1] at free
    cases free
  cases phase with
  | rests =>
    refine ⟨rfl, rfl, congrArg (· + 1) reflects.waiting, reflects.held, ?_, reflects.stats,
      reflects.seen⟩
    rintro _ ⟨⟩
    exact ⟨rfl, rfl⟩
  | waits submitted => cases unmarked
  | runs submitted entered => cases unmarked

/-- A body that is entered sees the instant of its submission. -/
theorem Reflects.entered (reflects : d.Reflects name task done phase c) (waits : 0 < d.waiting)
    (now : Instant) : ∃ submitted, phase = .waits submitted ∧
      Reflects {
        card := some (c.after (.entered now))
        waiting := d.waiting - 1
        held := d.held ++ [⟨name, now⟩] } name task done (.runs submitted now)
          (c.after (.entered now)) := by
  rw [reflects.waiting] at waits
  cases phase with
  | rests => cases waits
  | runs submitted entered => cases waits
  | waits submitted =>
    obtain ⟨busy, start⟩ := reflects.marked submitted rfl
    refine ⟨submitted, rfl, rfl, ?_, ?_, ?_, reflects.stats, ?_⟩
    · simp [reflects.waiting, Phase.waiting]
    · simp [reflects.held, Phase.held]
    · rintro _ ⟨⟩
      exact ⟨busy, start⟩
    · simp [Timecard.after, busy, start, reflects.seen, Phase.running?]

/-- A run that is completed is the one that was submitted last, and is accounted for once. -/
theorem Reflects.completed (reflects : d.Reflects name task done phase c) {run : Run}
    (held : run ∈ d.held) (ended : Instant) (failed : Bool) :
    ∃ submitted, phase = .runs submitted run.began ∧
      Reflects { d with
        card := some (c.after (.completed run.began ended failed))
        held := d.held.erase run } name task (done ++ [⟨submitted, run.began, ended, failed⟩]) .rests
          (c.after (.completed run.began ended failed)) := by
  have within := held
  rw [reflects.held] at within
  cases phase with
  | rests => cases within
  | waits submitted => cases within
  | runs submitted entered =>
    rw [Phase.held, List.mem_singleton] at within
    subst within
    obtain ⟨busy, start⟩ := reflects.marked submitted rfl
    refine ⟨submitted, rfl, rfl, reflects.waiting, ?_, ?_, ?_, ?_⟩
    · simp [reflects.held, Phase.held]
    · simp [Phase.submitted?]
    · simp [Timecard.after, start, reflects.stats, Execution.observation]
    · simp [Timecard.after, reflects.seen, Phase.running?]

/-- What is held about the runs of a task follows from what was done about them. -/
def Follows (d : Desk) (name : String) (deeds : List Deed) : Prop :=
  (deeds = [] ∧ d = {}) ∨
    ∃ task done phase c, deeds = .enrolled task :: done.flatMap Execution.deeds ++ phase.deeds ∧
      d.Reflects name task done phase c

theorem Step.follows {deed : Option Deed} (step : d.Step name deed d') {deeds : List Deed}
    (follows : d.Follows name deeds) : d'.Follows name (deeds ++ deed.toList) := by
  rcases follows with ⟨none, rfl⟩ | ⟨task, done, phase, c, told, reflects⟩
  · -- nothing but a registration can happen to a task that is not registered
    cases step with
    | still => exact .inl ⟨by simp [none], rfl⟩
    | enrolled task missing =>
      exact .inr ⟨task, [], .rests, task.timecard, by simp [none, Phase.deeds], .enrolled rfl rfl task⟩
    | submitted present => cases present
    | entered present => cases present
    | completed present => cases present
  · cases step with
    | still => exact .inr ⟨task, done, phase, c, by simpa using told, reflects⟩
    | enrolled other missing =>
      rw [reflects.present] at missing
      cases missing
    | submitted present free now =>
      rw [reflects.present, Option.some.injEq] at present
      subst present
      obtain ⟨rfl, after⟩ := reflects.submitted free now
      exact .inr ⟨task, done, .waits now, _, by simp [told, Phase.deeds], after⟩
    | entered present waits now =>
      rw [reflects.present, Option.some.injEq] at present
      subst present
      obtain ⟨submitted, rfl, after⟩ := reflects.entered waits now
      exact .inr ⟨task, done, .runs submitted now, _, by simp [told, Phase.deeds], after⟩
    | completed present held ended failed =>
      rw [reflects.present, Option.some.injEq] at present
      subst present
      obtain ⟨submitted, rfl, after⟩ := reflects.completed held ended failed
      exact .inr ⟨task, _, .rests, _, by simp [told, Phase.deeds, Execution.deeds], after⟩

end Desk

/-- Only a chore of a tick submits a task, for the instant of the tick. -/
theorem Stage.now_of_submitted {stage : Stage} {name : String} {now : Instant}
    (submitted : stage.deed? name = some (.submitted now)) :
    stage.move = .chore ∧ stage.before.now = now := by
  unfold Stage.deed? at submitted
  split at submitted
  · split at submitted <;> cases submitted
  · rename_i chore
    split at submitted <;> cases submitted
    exact ⟨chore, rfl⟩
  · split at submitted <;> cases submitted
  · split at submitted
    · obtain ⟨_, _, other⟩ := Option.map_eq_some_iff.mp submitted
      cases other
    · cases submitted
  · cases submitted

/-- The instant of the latest tick. -/
def History.tick? (h : History Stage) : Option Instant := h.findSome? fun stage =>
  match stage.move with
  | .tick now => some now
  | _ => none

namespace Moment

variable {allowed : Move → Prop} {workers : Nat} {scheduler : Scheduler} {h : History Stage}
  {m m' : Moment}

/-- What a moment holds about the runs of a task follows from what was done about them. -/
theorem Passes.follows (created : Scheduler.create workers = .ok scheduler)
    (passed : Passes allowed (initial scheduler) h m) (name : String) :
    (m.dispatcher.desk name).Follows name (h.deeds name) := by
  induction passed with
  | refl =>
    refine .inl ⟨rfl, ?_⟩
    obtain ⟨_, rfl⟩ := Scheduler.eq_of_create created
    rfl
  | step before may made ih =>
    rw [History.deeds_cons]
    exact (desk_step (before.reaches.tidy created) made name).follows ih

/-- What is left to do was begun by the latest tick. -/
theorem Passes.tick?_eq (passed : Passes allowed (initial scheduler) h m) (within : m.chores ≠ []) :
    h.tick? = some m.now := by
  induction passed with
  | refl => exact absurd rfl within
  | @step h m m' move before may made ih =>
    cases makes made with
    | begun idle => rfl
    | performed left done => exact ih (by simp [left])
    | _ => exact ih within

/-- The executions of a registered task after a run. -/
structure Attributed (h : History Stage) (m : Moment) (e : Entry) (task : Task)
    (done : List Execution) (phase : Phase) : Prop where
  /-- What was done about the task: it was registered, submitted, entered, completed, and so on. -/
  deeds : h.deeds e.task.name = .enrolled task :: done.flatMap Execution.deeds ++ phase.deeds
  /-- A job waits, or a worker holds a run, on account of the latest submission only. -/
  waiting : m.dispatcher.waiting.count e.task.name = phase.waiting
  held : m.dispatcher.held.filter (·.name = e.task.name) = phase.held e.task.name
  /-- As long as the latest submission is not completed, the task is in progress, and its start time is
  the instant of the tick that submitted it. -/
  marked : ∀ now, phase.submitted? = some now → e.task.inProgress = true ∧ e.task.startTime = now
  /-- This is what the body saw on each entry. -/
  seen : (e.task.visits.map fun visit => (visit.start, visit.busy)) =
    ((done.map Execution.submitted ++ phase.running?.toList).map (·, true)).reverse ++
      task.visits.map fun visit => (visit.start, visit.busy)
  /-- The account of its runs has one observation for each execution. -/
  stats : e.task.stats = (done.map Execution.observation).foldl Stats.observe task.stats

theorem Passes.attributed (created : Scheduler.create workers = .ok scheduler)
    (passed : Passes allowed (initial scheduler) h m) {e : Entry}
    (member : e ∈ m.dispatcher.scheduler.entries) :
    ∃ task done phase, Attributed h m e task done phase := by
  have found := Scheduler.entry?_of_mem (passed.reaches.sound created).scheduler.distinct member
  have card : (m.dispatcher.desk e.task.name).card = some e.task.timecard := by
    rw [Dispatcher.desk, found]
    rfl
  rcases passed.follows created e.task.name with ⟨_, none⟩ | ⟨task, done, phase, c, told, reflects⟩
  · rw [none] at card
    cases card
  · have same := reflects.present
    rw [card, Option.some.injEq] at same
    subst same
    exact ⟨task, done, phase, told, reflects.waiting, reflects.held, reflects.marked, reflects.seen,
      reflects.stats⟩

/-- After every run, and so after every part of one, each body that was entered belongs to one submission
of its task, in their order; a name under which no task is registered has none.  The instant of a
submission is that of the tick that made it. -/
theorem executions_attributed (created : Scheduler.create workers = .ok scheduler)
    (passed : Passes (fun _ => True) (initial scheduler) h m) :
    (∀ name ∉ m.dispatcher.scheduler.names, h.deeds name = []) ∧
    (∀ e ∈ m.dispatcher.scheduler.entries, ∃ task done phase, Attributed h m e task done phase) ∧
    ∀ (later earlier : History Stage) (stage : Stage) (name : String) (now : Instant),
      h = later ++ stage :: earlier → stage.deed? name = some (.submitted now) →
        earlier.tick? = some now := by
  refine ⟨?_, ?_, ?_⟩
  · intro name unregistered
    rcases passed.follows created name with ⟨none, _⟩ | ⟨_, _, _, c, _, reflects⟩
    · exact none
    · have present := reflects.present
      rw [Dispatcher.desk, Scheduler.entry?_eq_none_iff.mpr unregistered] at present
      cases present
  · exact fun e member => passed.attributed created member
  · rintro later earlier stage name now rfl submitted
    obtain ⟨sooner, _, next, made, _⟩ := passed.cut
    obtain ⟨chore, rfl⟩ := Stage.now_of_submitted submitted
    refine sooner.tick?_eq fun none => ?_
    simp [chore, step?, doChore?, none] at made

/-! ## A sample run

One worker and one task.  Its body is entered five nanoseconds after the tick that submits it, and ends
when it gets a permit, seven nanoseconds later. -/

namespace Errand

/-- What is done, one thing after the other. -/
def moves : List Move :=
  [.register (some Sample.gated) .epoch, .act (.setEnabled true), .act (.advance 1000000000),
    .tick ⟨1000000000⟩, .chore, .act (.advance 5), .take, .act (.advance 7), .act (.permit "gated"),
    .finish ⟨"gated", ⟨1000000005⟩⟩]

/-- The history of the run, and the moment it leads to. -/
def run : History Stage × Moment := lead (initial Sample.scheduler) moves

end Errand

/-- The task was executed once. -/
theorem executions_attributed_sample : ∃ e ∈ Errand.run.2.dispatcher.scheduler.entries,
    Errand.run.1.deeds e.task.name = [.enrolled Sample.gated, .submitted ⟨1000000000⟩,
      .entered ⟨1000000005⟩, .completed ⟨1000000005⟩ ⟨1000000012⟩ false] ∧
    e.task.stats.latencyMax = 5 ∧ e.task.stats.execSum = 7 ∧
    ∃ task done phase, Attributed Errand.run.1 Errand.run.2 e task done phase := by
  have passed : Passes (fun _ => True) (initial Sample.scheduler) Errand.run.1 Errand.run.2 :=
    passes_lead (fun _ _ => trivial) (by decide +kernel)
  obtain ⟨e, member, deeds, latency, exec⟩ : ∃ e ∈ Errand.run.2.dispatcher.scheduler.entries,
      Errand.run.1.deeds e.task.name = [.enrolled Sample.gated, .submitted ⟨1000000000⟩,
        .entered ⟨1000000005⟩, .completed ⟨1000000005⟩ ⟨1000000012⟩ false] ∧
      e.task.stats.latencyMax = 5 ∧ e.task.stats.execSum = 7 := by decide +kernel
  exact ⟨e, member, deeds, latency, exec,
    (executions_attributed Sample.created passed).2.1 e member⟩

end Moment

end Cadence

import Cadence.Proofs.Backlog

/-!
A registration is all or nothing.

It is refused for the first of three reasons, or it adds one entry and lowers the shortest interval; a
refused one leaves no trace, so that it may as well not have been tried (`Moment.Passes.without_refused`).
Registration is open until the pool is made, which is done by a start, by a tick while evaluation is
enabled, and by every run of the loop, and by nothing else (`Moment.Passes.started_eq`).
-/

namespace Cadence

namespace Stage

/-- Whether the step makes the pool, unless it exists. -/
def opens (stage : Stage) : Bool :=
  match stage.move with
  | .start => true
  | .tick _ => stage.before.dispatcher.scheduler.enabled
  | _ => false

/-- Whether the step is a registration that is refused. -/
def refused (stage : Stage) : Bool :=
  match stage.move with
  | .register task instant =>
    match stage.before.dispatcher.register task instant with
    | .ok _ => false
    | .error _ => true
  | _ => false

end Stage

namespace Moment

variable {allowed : Move → Prop} {workers : Nat} {scheduler : Scheduler} {h : History Stage}
  {first m m' : Moment} {move : Move}

/-! ## The pool -/

/-- A step makes the pool if it is meant to, and no step shuts it down. -/
theorem started_step_eq (sound : m.Sound) (made : m.step? move = some m') :
    m'.dispatcher.scheduler.started =
      (m.dispatcher.scheduler.started || Stage.opens ⟨m, move⟩) := by
  have kept : m'.dispatcher.scheduler.layout = m.dispatcher.scheduler.layout →
      Stage.opens ⟨m, move⟩ = false → m'.dispatcher.scheduler.started =
        (m.dispatcher.scheduler.started || Stage.opens ⟨m, move⟩) := by
    intro same closed
    rw [Scheduler.started_of_layout same, closed, Bool.or_false]
  cases makes made with
  | registered idle unrefused unstarted unregistered => exact (Bool.or_false _).symm
  | refused idle refused => exact kept rfl rfl
  | started idle =>
    have opened : Stage.opens ⟨m, .start⟩ = true := rfl
    rw [withDispatcher, Dispatcher.scheduler_start, opened, Bool.or_true]
    rfl
  | @begun now idle =>
    have opens : Stage.opens ⟨m, .tick now⟩ = m.dispatcher.scheduler.enabled := rfl
    rw [beginTick, Dispatcher.opened, opens]
    cases enabled : m.dispatcher.scheduler.enabled with
    | false => simp
    | true =>
      rw [if_pos rfl, Dispatcher.scheduler_start, Bool.or_true]
      rfl
  | performed left done =>
    exact kept (Dispatcher.layout_perform (sound.started (by simp [left])) done) rfl
  | noted idle => exact kept rfl rfl
  | acted done => exact kept (Dispatcher.layout_act done) rfl
  | failed => exact kept rfl rfl
  | hooked => exact kept rfl rfl
  | taken taken => exact kept (Dispatcher.layout_take taken) rfl
  | finished held ready => exact kept (Dispatcher.layout_finish _ _) rfl

/-- There is a pool if there was one, or some step has made it. -/
theorem Passes.started_eq (sound : first.Sound) (passed : Passes allowed first h m) :
    m.dispatcher.scheduler.started = (first.dispatcher.scheduler.started || h.any Stage.opens) := by
  induction passed with
  | refl => exact (Bool.or_false _).symm
  | step before may made ih =>
    rw [started_step_eq (sound.of_reaches before.reaches) made, ih, List.any_cons,
      Bool.or_comm (Stage.opens _), Bool.or_assoc]

/-- Within a tick no pool is made. -/
theorem Passes.unopened (passed : Passes Move.Inside first h m) : h.any Stage.opens = false := by
  induction passed with
  | refl => rfl
  | @step h m m' move before inside made ih =>
    rw [List.any_cons, ih, Bool.or_false]
    cases move with
    | chore | take | finish run => rfl
    | _ => cases inside

/-- A tick makes the pool when it begins, if evaluation is enabled. -/
theorem started_tick (sound : m.Sound) (idle : m.idle = true) (now : Instant) :
    (m.dispatcher.tick now).2.scheduler.started =
      (m.dispatcher.scheduler.started || m.dispatcher.scheduler.enabled) := by
  have begun : m.step? (.tick now) = some (m.beginTick now) := by simp [step?, idle]
  have done : m.dispatcher.tick now = ((m.dispatcher.tick now).1, (m.dispatcher.tick now).2) := rfl
  have inside : Reaches Move.Inside (beginTick ⟨m.dispatcher, m.now, [], m.verdict⟩ now) _ :=
    tick_inside done
  obtain ⟨h, passed⟩ := inside.passes
  have kept := passed.started_eq (sound_step sound begun)
  rw [passed.unopened, Bool.or_false] at kept
  exact kept.trans (started_step_eq sound begun)

/-- Once there is a pool, the loop leaves it. -/
theorem started_loop {script : Script} {s : Session} {now : Instant} {verdict : Verdict}
    (sound : Sound ⟨s.dispatcher, now, [], verdict⟩) (started : s.dispatcher.scheduler.started = true)
    (gap : Millis) (last : Option Instant) (rounds : Nat) (woke : Instant) :
    ((Session.host script).loop gap last rounds woke s).2.dispatcher.scheduler.started = true := by
  have here : Rests (Move.Within (fun _ => True) fun _ => True) ⟨s.dispatcher, now, [], verdict⟩
      s.dispatcher := ⟨now, verdict, .refl⟩
  obtain ⟨_, _, looped⟩ := (Host.loop_keeps (h := Session.host script)
    (Session.host_keeps (fun _ => trivial) fun _ _ _ => trivial) gap last rounds woke here).1
  obtain ⟨h, passed⟩ := looped.passes
  have kept := passed.started_eq sound
  rwa [started, Bool.true_or] at kept

/-- A run of the loop makes the pool, however it comes out. -/
theorem started_run (sound : m.Sound) (idle : m.idle = true) (script : Script)
    (duration : Option Millis) (thread : String) :
    (Session.run script duration
      { dispatcher := m.dispatcher, thread }).2.dispatcher.scheduler.started = true := by
  have rests : Rests (Move.Within (fun _ => True) fun _ => True) m m.dispatcher :=
    Rests.of_reaches .refl idle
  -- the thread is named and the pool is made, and then the loop begins
  obtain ⟨gap, last, woke, s, begins, made⟩ : ∃ gap last woke s,
      Session.run script duration { dispatcher := m.dispatcher, thread } =
        (Session.host script).loop gap last Session.maxRounds woke s ∧
      s.dispatcher = Dispatcher.start { m.dispatcher with
        log := (Thread.rename thread Host.threadName).2.reverse ++ m.dispatcher.log } := by
    cases duration <;> exact ⟨_, _, _, _, rfl, rfl⟩
  obtain ⟨now, verdict, reached⟩ :=
    (rests.log (Thread.rename thread Host.threadName).2.reverse).start
  rw [← made] at reached
  rw [begins]
  refine started_loop (sound.of_reaches reached) ?_ gap last _ woke
  rw [made, Dispatcher.scheduler_start]
  rfl

/-! ## Registrations -/

/-- A registration that is refused leaves everything as it was. -/
theorem eq_of_refused (refused : Stage.refused ⟨m, move⟩ = true) (made : m.step? move = some m') :
    m' = m := by
  cases makes made with
  | @registered new instant idle unrefused unstarted unregistered =>
    simp [Stage.refused, Dispatcher.register_of_unrefused unrefused] at refused
  | refused => rfl
  | _ => cases refused

/-- The registrations that were refused may as well not have been tried. -/
theorem Passes.without_refused (passed : Passes allowed first h m) :
    Passes allowed first (h.filter fun stage => !stage.refused) m := by
  induction passed with
  | refl => exact .refl
  | @step h m m' move before may made ih =>
    cases refused : Stage.refused ⟨m, move⟩ with
    | false =>
      rw [List.filter_cons_of_pos (by simp [refused])]
      exact .step ih may made
    | true =>
      rw [List.filter_cons_of_neg (by simp [refused]), eq_of_refused refused made]
      exact ih

/-- What a registration comes to, after a run with this history. -/
structure Admission (h : History Stage) (m : Moment) : Prop where
  /-- Without a task. -/
  noTask : ∀ instant, m.dispatcher.register none instant = .error .noTask
  /-- Once there is a pool. -/
  closed : m.dispatcher.scheduler.started = true → ∀ task instant,
    m.dispatcher.register (some task) instant = .error (.alreadyStarted task.name)
  /-- Before that, under a name that is taken. -/
  taken : m.dispatcher.scheduler.started = false → ∀ task instant,
    task.name ∈ m.dispatcher.scheduler.names →
      m.dispatcher.register (some task) instant = .error (.duplicateName task.name)
  /-- Before that, under a name of its own: there is one entry more, and the others are as they were. -/
  admitted : m.dispatcher.scheduler.started = false → ∀ task instant,
    task.name ∉ m.dispatcher.scheduler.names →
      m.dispatcher.register (some task) instant = .ok { m.dispatcher with
        scheduler := { m.dispatcher.scheduler with
          entries := m.dispatcher.scheduler.entries ++
            [⟨{ task with contention := m.dispatcher.scheduler.contention },
              instant.after task.interval⟩]
          minInterval := m.dispatcher.scheduler.minInterval.shorter task.interval } }
  /-- A refused registration leaves the scheduler and the task that was offered as they were, and so
  everything else. -/
  refused : ∀ task instant fault, m.dispatcher.register task instant = .error fault →
    m.dispatcher.scheduler.register task instant =
      { fault? := some fault, offered := task, scheduler := m.dispatcher.scheduler } ∧
    (m.idle = true → m.step? (.register task instant) = some m)
  /-- There is a pool if a start made it, or a tick that began while evaluation was enabled. -/
  started : m.dispatcher.scheduler.started = true ↔ ∃ stage ∈ h, stage.opens = true
  /-- A tick that is carried out at once makes it if evaluation is enabled, and not otherwise. -/
  ticks : m.idle = true → ∀ now, (m.dispatcher.tick now).2.scheduler.started =
    (m.dispatcher.scheduler.started || m.dispatcher.scheduler.enabled)
  /-- Every run of the loop makes it, for a time or without end. -/
  loops : m.idle = true → ∀ script duration thread, (Session.run script duration
    { dispatcher := m.dispatcher, thread }).2.dispatcher.scheduler.started = true

/-- Whatever was done to a scheduler, a registration is refused for the first reason that applies, or it
adds one entry; and the registrations that were refused can be left out of what was done. -/
theorem registration_all_or_nothing (created : Scheduler.create workers = .ok scheduler)
    (passed : Passes (fun _ => True) (initial scheduler) h m) :
    Admission h m ∧
      Passes (fun _ => True) (initial scheduler) (h.filter fun stage => !stage.refused) m := by
  have sound := passed.reaches.sound created
  have unmade : (initial scheduler).dispatcher.scheduler.started = false := by
    obtain ⟨_, rfl⟩ := Scheduler.eq_of_create created
    rfl
  have made := passed.started_eq (sound_initial created)
  rw [unmade, Bool.false_or] at made
  refine ⟨⟨fun _ => rfl, ?_, ?_, ?_, ?_, ?_, started_tick sound, started_run sound⟩,
    passed.without_refused⟩
  · intro started task instant
    exact Dispatcher.register_of_started started (some task) instant
  · intro unstarted task instant taken
    simp [Dispatcher.register, Scheduler.register, Scheduler.refusal?, unstarted, taken]
  · intro unstarted task instant free
    exact Dispatcher.register_of_unrefused (Scheduler.refusal?_eq_none_iff.mpr ⟨unstarted, free⟩) instant
  · intro task instant fault refused
    exact ⟨Dispatcher.register_eq_error refused, fun idle => step?_register_of_error idle refused⟩
  · rw [made, List.any_eq_true]

namespace Entrance

/-- A task is registered twice, a tick is made while evaluation is disabled, another task is registered,
and after a tick while evaluation is enabled nothing can be registered any more. -/
def moves : List Move :=
  [.register (some Sample.gated) .epoch, .register (some Sample.gated) .epoch, .tick .epoch,
    .register (some Sample.brief) .epoch, .act (.setEnabled true), .tick .epoch, .chore, .chore,
    .register (some Sample.brief) .epoch, .register none .epoch]

/-- The history of the run, and the moment it leads to. -/
def run : History Stage × Moment := lead (initial Sample.scheduler) moves

end Entrance

/-- Three of the five registrations were refused. -/
theorem registration_all_or_nothing_sample :
    Entrance.run.1.all.map Stage.refused =
      [false, true, false, false, false, false, false, false, true, true] ∧
    Entrance.run.2.dispatcher.scheduler.names = ["gated", "brief"] ∧
    Admission Entrance.run.1 Entrance.run.2 := by
  have passed : Passes (fun _ => True) (initial Sample.scheduler) Entrance.run.1 Entrance.run.2 :=
    passes_lead (fun _ _ => trivial) (by decide +kernel)
  exact ⟨by decide +kernel, by decide +kernel, (registration_all_or_nothing Sample.created passed).1⟩

end Moment

end Cadence

import Cadence.Proofs.Diary
import Cadence.Proofs.Histories
import Cadence.Proofs.Ruling
import Cadence.Session

/-!
What is left of a scheduler at work when every failure of a body is excused.

An excused task has a body that returns where the task's own body fails, and no failures on its account;
in an excused dispatcher there are no complaints of the workers.  To excuse afterwards comes to the same as
to excuse beforehand, for each step that can be made (`Moment.step?_excused`), for a tick that is carried
out at once (`Dispatcher.tick_excused`), and for a run of the dispatch loop (`Session.run_excused`).
-/

namespace Cadence

/-! ## Tasks -/

/-- The body, as if it returned whenever it ends. -/
def Body.excused (b : Body) : Body := { b with ending := .returns }

/-- What is known of the runs, but for the failures. -/
def Stats.excused (s : Stats) : Stats := { s with failures := 0 }

namespace Task

/-- The task, as if its body never failed. -/
def excused (t : Task) : Task := { t with body := t.body.excused, stats := t.stats.excused }

variable (t : Task)

@[simp] theorem enter_excused : t.excused.enter = t.enter.excused := rfl

/-- A run takes as long and is as late, whether or not it fails. -/
@[simp] theorem complete_excused (began now : Instant) :
    t.excused.complete began now = (t.complete began now).excused := rfl

/-- A body ends when it would end otherwise. -/
@[simp] theorem ready_excused (began now : Instant) :
    t.excused.body.ready began now t.excused.permits = t.body.ready began now t.permits := rfl

end Task

namespace Entry

/-- The entry, as if the body of its task never failed. -/
def excused (e : Entry) : Entry := { e with task := e.task.excused }

variable (e : Entry) (mode : Mode) (now : Instant)

@[simp] theorem ruling_excused : e.excused.ruling mode now = e.ruling mode now := rfl

@[simp] theorem consumeSlot_excused : e.excused.consumeSlot = e.consumeSlot.excused := by
  obtain ⟨task, due⟩ := e
  rfl

@[simp] theorem startRun_excused : e.excused.startRun now = (e.startRun now).excused := by
  rw [startRun, consumeSlot_excused, startRun]
  generalize e.consumeSlot = taken
  rfl

@[simp] theorem demote_excused (next : Health) :
    e.excused.demote next = (e.demote next).excused := by
  rw [demote, consumeSlot_excused, demote]
  generalize e.consumeSlot = taken
  rfl

/-- What is ruled is done to an entry whether or not the body of its task fails. -/
theorem ruling_change_excused (other : Entry) : (e.ruling mode now).change other.excused =
    ((e.ruling mode now).change other).excused := by
  unfold ruling
  split
  · rfl
  split
  · exact other.consumeSlot_excused
  split
  · exact other.consumeSlot_excused
  split
  · split
    · exact other.consumeSlot_excused
    · exact other.demote_excused _
  · exact other.startRun_excused now

end Entry

/-! ## Schedulers -/

namespace Scheduler

/-- The scheduler, as if no body ever failed. -/
def excused (s : Scheduler) : Scheduler := { s with entries := s.entries.map Entry.excused }

variable (s : Scheduler)

@[simp] theorem names_excused : s.excused.names = s.names := by
  simp only [names, excused, List.map_map]
  rfl

@[simp] theorem entry?_excused (name : String) :
    s.excused.entry? name = (s.entry? name).map Entry.excused := List.find?_map

@[simp] theorem task?_excused (name : String) :
    s.excused.task? name = (s.task? name).map Task.excused := by
  rw [task?, entry?_excused, task?]
  cases s.entry? name <;> rfl

theorem modifyEntry_excused (name : String) {f g : Entry → Entry}
    (same : ∀ e : Entry, g e.excused = (f e).excused) :
    s.excused.modifyEntry name g = (s.modifyEntry name f).excused := by
  simp only [modifyEntry, excused, List.map_map, mk.injEq, and_true, true_and]
  apply List.map_congr_left
  intro e _
  simp only [Function.comp_apply]
  by_cases named : e.task.name = name
  · rw [if_pos named, if_pos (show e.excused.task.name = name from named), same]
  · rw [if_neg named, if_neg (show ¬ e.excused.task.name = name from named)]

theorem modifyTask_excused (name : String) {f g : Task → Task}
    (same : ∀ t : Task, g t.excused = (f t).excused) :
    s.excused.modifyTask name g = (s.modifyTask name f).excused :=
  s.modifyEntry_excused name fun e => congrArg (fun task => { e with task }) (same e.task)

@[simp] theorem backlogCapacity_excused : s.excused.backlogCapacity = s.backlogCapacity := by
  simp [backlogCapacity, excused]

@[simp] theorem poolOrNew_excused : s.excused.poolOrNew = s.poolOrNew := by
  rw [poolOrNew, backlogCapacity_excused]
  rfl

@[simp] theorem start_excused : s.excused.start = s.start.excused := by
  rw [start, poolOrNew_excused]
  rfl

@[simp] theorem submit_excused (name : String) :
    s.excused.submit name = (s.submit name).map excused := by
  rw [submit, poolOrNew_excused, submit]
  cases s.poolOrNew.submit name <;> rfl

@[simp] theorem setContention_excused (on : Bool) :
    s.excused.setContention on = (s.setContention on).excused := by
  simp only [setContention, excused, List.map_map]
  rfl

@[simp] theorem enroll_excused (task : Task) (instant : Instant) :
    s.excused.enroll task.excused instant = (s.enroll task instant).excused := by
  simp only [enroll, excused, List.map_append]
  rfl

/-- What a registration comes to, as if no body ever failed. -/
def Registration.excused (r : Registration) : Registration :=
  { r with offered := r.offered.map Task.excused, scheduler := r.scheduler.excused }

/-- A task is registered or refused, whether or not bodies fail. -/
@[simp] theorem register_excused (task : Option Task) (instant : Instant) :
    s.excused.register (task.map Task.excused) instant = (s.register task instant).excused := by
  cases task with
  | none => rfl
  | some task =>
    have same : s.excused.refusal? task.excused.name = s.refusal? task.name := by
      simp only [refusal?, names_excused]
      rfl
    simp only [register, Option.map_some, same]
    cases s.refusal? task.name with
    | some fault => rfl
    | none =>
      simp only [enroll_excused]
      rfl

end Scheduler

/-! ## Dispatchers -/

/-- Steps that are made in the same way through a map can be repeated through it. -/
theorem exhaust_map {σ : Type} {step? : σ → Option σ} {f : σ → σ}
    (same : ∀ s, step? (f s) = (step? s).map f) (n : Nat) (s : σ) :
    exhaust step? n (f s) = f (exhaust step? n s) := by
  induction n generalizing s with
  | zero => rfl
  | succ n ih =>
    rw [exhaust, exhaust, same]
    cases step? s with
    | none => rfl
    | some next => exact ih next

namespace Dispatcher

/-- The dispatcher, as if no body ever failed: the workers have nothing to complain of. -/
def excused (s : Dispatcher) : Dispatcher :=
  { s with scheduler := s.scheduler.excused, workerLog := [] }

variable (s : Dispatcher)

@[simp] theorem scheduler_excused : s.excused.scheduler = s.scheduler.excused := rfl

/-- The log of the control thread is the same. -/
@[simp] theorem note_excused (level : Level) (text : String) :
    s.excused.note level text = (s.note level text).excused := rfl

@[simp] theorem noteWhen_excused (condition : Bool) (level : Level) (text : String) :
    s.excused.noteWhen condition level text = (s.noteWhen condition level text).excused := by
  cases condition <;> rfl

theorem modifyScheduler_excused {f g : Scheduler → Scheduler}
    (same : g s.scheduler.excused = (f s.scheduler).excused) :
    s.excused.modifyScheduler g = (s.modifyScheduler f).excused := by
  simp only [modifyScheduler, scheduler_excused, same]
  rfl

/-- A line may be logged before a change of the scheduler. -/
theorem noted_excused (condition : Bool) (level : Level) (text : String) {f : Scheduler → Scheduler}
    (same : ∀ scheduler : Scheduler, f scheduler.excused = (f scheduler).excused) :
    (s.excused.noteWhen condition level text).modifyScheduler f =
      ((s.noteWhen condition level text).modifyScheduler f).excused := by
  rw [noteWhen_excused]
  exact modifyScheduler_excused _ (same _)

/-- What is logged when the pool has been made tells of the number of tasks and workers and of the
shortest interval. -/
theorem startText_congr {s t : Scheduler} (length : s.entries.length = t.entries.length)
    (workers : s.workers = t.workers) (interval : s.minInterval = t.minInterval) :
    startText s = startText t := by
  unfold startText
  rw [length, workers, interval]

@[simp] theorem start_excused : s.excused.start = s.start.excused := by
  have empty : s.scheduler.excused.entries.isEmpty = s.scheduler.entries.isEmpty :=
    List.isEmpty_map
  have text : startText s.scheduler.excused = startText s.scheduler :=
    startText_congr (List.length_map _) rfl rfl
  have started : s.scheduler.excused.started = s.scheduler.started := rfl
  unfold start
  rw [scheduler_excused, started, empty, text]
  split
  · rfl
  · have noted := s.noted_excused s.scheduler.entries.isEmpty .warn
      "Starting collector scheduler with no registered collectors" Scheduler.start_excused
    exact congrArg (·.note .info (startText s.scheduler)) noted

/-- A control does the same, whether or not bodies fail. -/
@[simp] theorem act_excused (action : Action) :
    s.excused.act action = (s.act action).map excused := by
  cases action with
  | setMode mode =>
    exact congrArg Except.ok
      (s.noted_excused _ _ _ (f := fun scheduler => { scheduler with mode }) fun _ => rfl)
  | setEnabled on =>
    exact congrArg Except.ok
      (s.noted_excused _ _ _ (f := fun scheduler => { scheduler with enabled := on }) fun _ => rfl)
  | setContention on =>
    exact congrArg Except.ok (s.modifyScheduler_excused (Scheduler.setContention_excused _ on))
  | setHealth name health =>
    exact congrArg Except.ok
      (s.modifyScheduler_excused (s.scheduler.modifyTask_excused name fun _ => rfl))
  | permit name =>
    exact congrArg Except.ok
      (s.modifyScheduler_excused (s.scheduler.modifyTask_excused name fun _ => rfl))
  | advance ns => rfl
  | raise what => rfl

@[simp] theorem opened_excused : s.excused.opened = s.opened.excused := by
  have enabled : s.scheduler.excused.enabled = s.scheduler.enabled := rfl
  unfold opened
  rw [scheduler_excused, enabled, start_excused]
  split <;> rfl

@[simp] theorem agenda_excused : s.excused.agenda = s.agenda := by
  have enabled : s.scheduler.excused.enabled = s.scheduler.enabled := rfl
  unfold agenda
  rw [scheduler_excused, enabled, Scheduler.names_excused]

/-! ### Chores -/

theorem submit_excused (name : String) :
    s.excused.submit name = (s.submit name).map id excused := by
  simp only [submit, scheduler_excused, Scheduler.submit_excused]
  cases s.scheduler.submit name <;> rfl

/-- A ruling is carried out in the same way. -/
theorem carry_excused (name : String) {r : Ruling}
    (change : ∀ e : Entry, r.change e.excused = (r.change e).excused) :
    s.excused.carry name r = (s.carry name r).map id excused := by
  have ruled := s.scheduler.modifyEntry_excused name change
  simp only [carry, scheduler_excused, ruled]
  split
  · exact submit_excused { s with scheduler := _, log := _ } name
  · rfl

/-- A chore comes to the same, whether or not bodies fail. -/
@[simp] theorem perform_excused (now : Instant) (c : Chore) :
    s.excused.perform now c = (s.perform now c).map id excused := by
  cases c with
  | consider name =>
    simp only [perform, consider_eq, scheduler_excused, Scheduler.entry?_excused]
    cases s.scheduler.entry? name with
    | none => rfl
    | some e =>
      have mode : s.scheduler.excused.mode = s.scheduler.mode := rfl
      simp only [Option.map_some, mode, Entry.ruling_excused]
      exact s.carry_excused name (e.ruling_change_excused _ now)
  | record event name => rfl
  | note line => rfl
  | act action =>
    simp only [perform, act_excused]
    cases s.act action <;> rfl

/-! ### Workers -/

@[simp] theorem held_excused : s.excused.held = s.held := rfl

@[simp] theorem ready_excused (run : Run) : s.excused.ready run = s.ready run := by
  simp only [ready, scheduler_excused, Scheduler.task?_excused, Option.any_map, Task.ready_excused]
  rfl

theorem enter_excused (name : String) : s.excused.enter name = (s.enter name).excused := by
  have work : (s.scheduler.excused.task? name).map (·.body.work) =
      (s.scheduler.task? name).map (·.body.work) := by
    rw [Scheduler.task?_excused, Option.map_map]
    rfl
  have entered : s.excused.modifyScheduler (·.modifyTask name Task.enter) =
      (s.modifyScheduler (·.modifyTask name Task.enter)).excused :=
    s.modifyScheduler_excused (s.scheduler.modifyTask_excused name Task.enter_excused)
  rw [enter, scheduler_excused, work, entered]
  rfl

/-- A worker takes a job and enters the body, whether or not the body will fail. -/
@[simp] theorem take?_excused : s.excused.take? = s.take?.map excused := by
  show (s.scheduler.pool.bind (·.take? fun name => ⟨name, s.clock⟩)).map _ = _
  unfold take?
  cases s.scheduler.pool.bind (·.take? fun name => ⟨name, s.clock⟩) with
  | none => rfl
  | some taken =>
    exact congrArg some (enter_excused
      (s.modifyScheduler fun scheduler => { scheduler with pool := some taken.2 }) taken.1)

/-- A worker is free again and the run is completed, whether or not the body failed. -/
@[simp] theorem finish_excused (run : Run) : s.excused.finish run = (s.finish run).excused := by
  have silent : ((s.scheduler.excused.task? run.name).map Task.complaints).getD [] = [] := by
    rw [Scheduler.task?_excused, Option.map_map]
    cases s.scheduler.task? run.name <;> rfl
  have completed : ∀ freed : Dispatcher,
      freed.excused.modifyScheduler (·.modifyTask run.name (·.complete run.began s.clock)) =
        (freed.modifyScheduler (·.modifyTask run.name (·.complete run.began s.clock))).excused :=
    fun freed => freed.modifyScheduler_excused
      (freed.scheduler.modifyTask_excused run.name fun t => t.complete_excused run.began s.clock)
  simp only [finish, scheduler_excused, silent]
  exact congrArg (fun t : Dispatcher => { t with workerLog := [] }) (completed
    (s.modifyScheduler fun scheduler =>
      { scheduler with pool := scheduler.pool.map (·.release run) }))

@[simp] theorem work?_excused : s.excused.work? = s.work?.map excused := by
  have ready : s.excused.ready = s.ready := funext s.ready_excused
  simp only [work?, finish?, held_excused, ready, take?_excused]
  cases s.held.find? s.ready with
  | none => simp
  | some run => simp

/-- The workers settle in the same way. -/
@[simp] theorem settle_excused : s.excused.settle = s.settle.excused :=
  exhaust_map work?_excused s.weight s

@[simp] theorem obey_excused (action : Action) :
    s.excused.obey action = (s.obey action).map excused := by
  rw [obey, act_excused, obey]
  cases s.act action with
  | error fault => rfl
  | ok t => exact congrArg Except.ok t.settle_excused

@[simp] theorem wakeTimes_excused : s.excused.wakeTimes = s.wakeTimes := by
  have same : (fun run : Run => (s.scheduler.excused.task? run.name).bind
      (·.body.wakeTime? run.began)) =
      fun run => (s.scheduler.task? run.name).bind (·.body.wakeTime? run.began) := by
    funext run
    rw [Scheduler.task?_excused, Option.bind_map]
    rfl
  simp only [wakeTimes, held_excused, scheduler_excused, same]

@[simp] theorem wake?_excused (limit : Instant → Bool) :
    s.excused.wake? limit = (s.wake? limit).map excused := by
  rw [wake?, wakeTimes_excused, wake?]
  cases Instant.earliest? (s.wakeTimes.filter limit) with
  | none => rfl
  | some next =>
    exact congrArg some (settle_excused { s with clock := s.clock.later next })

@[simp] theorem wakeAll_excused (limit : Instant → Bool) :
    s.excused.wakeAll limit = (s.wakeAll limit).excused :=
  exhaust_map (fun s => s.wake?_excused limit) s.weight s

@[simp] theorem sleepUntil_excused (instant : Instant) :
    s.excused.sleepUntil instant = (s.sleepUntil instant).excused := by
  rw [sleepUntil, wakeAll_excused]
  rfl

/-! ### Ticks -/

theorem inOrder_excused {α : Type} {f : α → Dispatcher → Verdict × Dispatcher}
    (same : ∀ a s, f a (excused s) = (f a s).map id excused) (as : List α) :
    inOrder f as s.excused = (inOrder f as s).map id excused := by
  induction as generalizing s with
  | nil => rfl
  | cons a rest ih =>
    rw [inOrder, same, inOrder]
    obtain ⟨verdict, t⟩ := f a s
    cases verdict with
    | proceed => exact ih t
    | stop => rfl
    | fail fault => rfl

theorem carryOut_excused (now : Instant) (depth : Nat) (c : Chore) :
    carryOut now depth c s.excused = (carryOut now depth c s).map id excused := by
  induction depth generalizing c s with
  | zero => rfl
  | succ depth ih =>
    rw [carryOut, perform_excused, carryOut]
    obtain ⟨result, t⟩ := s.perform now c
    cases result with
    | proceed chores =>
      simp only [Prod.map_apply, id, settle_excused]
      exact inOrder_excused _ (fun c s => ih s c) chores
    | stop => simp only [Prod.map_apply, id, settle_excused]
    | fail fault => simp only [Prod.map_apply, id, settle_excused]

/-- A tick comes to the same, whether or not bodies fail. -/
theorem tick_excused (now : Instant) : s.excused.tick now = (s.tick now).map id excused := by
  rw [tick, agenda_excused, opened_excused, tick]
  exact inOrder_excused _ (fun c s => s.carryOut_excused now c.level c) s.agenda

end Dispatcher

/-! ## Steps -/

/-- The move; a task that is registered is excused. -/
def Move.excused : Move → Move
  | .register task instant => .register (task.map Task.excused) instant
  | move => move

namespace Moment

/-- The moment, as if no body ever failed. -/
def excused (m : Moment) : Moment := { m with dispatcher := m.dispatcher.excused }

variable (m : Moment)

theorem beginTick_excused (now : Instant) :
    m.excused.beginTick now = (m.beginTick now).excused := by
  have opened := m.dispatcher.opened_excused
  have agenda := m.dispatcher.agenda_excused
  simp only [beginTick, excused, opened, agenda]

theorem doChore?_excused : m.excused.doChore? = m.doChore?.map excused := by
  have chores : m.excused.chores = m.chores := rfl
  unfold doChore?
  rw [chores]
  cases m.chores with
  | nil => rfl
  | cons chore rest =>
    have performed : m.excused.dispatcher.perform m.excused.now chore =
        (m.dispatcher.perform m.now chore).map id Dispatcher.excused :=
      m.dispatcher.perform_excused m.now chore
    simp only [performed]
    obtain ⟨result, t⟩ := m.dispatcher.perform m.now chore
    cases result <;> rfl

/-- To make a step and to excuse what comes of it is to make the step with what is excused. -/
theorem step?_excused (move : Move) :
    m.excused.step? move.excused = (m.step? move).map excused := by
  have idle : m.excused.idle = m.idle := rfl
  have dispatcher : m.excused.dispatcher = m.dispatcher.excused := rfl
  cases move with
  | register task instant =>
    have registered : m.excused.dispatcher.modifyScheduler
        (fun scheduler => (scheduler.register (task.map Task.excused) instant).scheduler) =
          (m.dispatcher.modifyScheduler
            fun scheduler => (scheduler.register task instant).scheduler).excused :=
      m.dispatcher.modifyScheduler_excused (congrArg Scheduler.Registration.scheduler
        (m.dispatcher.scheduler.register_excused task instant))
    simp only [Move.excused, step?, idle, registered]
    split <;> rfl
  | start =>
    simp only [Move.excused, step?, idle, dispatcher, Dispatcher.start_excused]
    split <;> rfl
  | tick now =>
    simp only [Move.excused, step?, idle, beginTick_excused]
    split <;> rfl
  | chore => exact m.doChore?_excused
  | note line =>
    simp only [Move.excused, step?, idle, dispatcher, Dispatcher.note_excused]
    split <;> rfl
  | act action =>
    simp only [Move.excused, step?, dispatcher, Dispatcher.act_excused]
    cases m.dispatcher.act action <;> rfl
  | hook hook => rfl
  | take =>
    simp only [Move.excused, step?, dispatcher, Dispatcher.take?_excused]
    cases m.dispatcher.take? <;> rfl
  | finish run =>
    simp only [Move.excused, step?, dispatcher, Dispatcher.held_excused, Dispatcher.ready_excused,
      Dispatcher.finish_excused]
    split <;> rfl

end Moment

/-! ## Runs of the loop -/

namespace Session

/-- The session, as if no body ever failed. -/
def excused (s : Session) : Session := { s with dispatcher := s.dispatcher.excused }

theorem actAll_excused (actions : List Action) (s : Dispatcher) :
    actAll actions s.excused = (actAll actions s).map id Dispatcher.excused := by
  induction actions generalizing s with
  | nil => rfl
  | cons action rest ih =>
    rw [actAll, Dispatcher.obey_excused, actAll]
    cases s.obey action with
    | error fault => rfl
    | ok t => exact ih t

theorem sleep_excused (script : Script) (length : Millis) (s : Session) :
    sleep script length s.excused = (sleep script length s).map excused := by
  have acted : actAll (script.actions (s.begun + 1)) s.excused.dispatcher =
      (actAll (script.actions (s.begun + 1)) s.dispatcher).map id Dispatcher.excused :=
    actAll_excused _ s.dispatcher
  have begun : s.excused.begun = s.begun := rfl
  simp only [sleep, begun]
  split
  · rfl
  split
  · rfl
  · rw [acted]
    obtain ⟨fault, t⟩ := actAll (script.actions (s.begun + 1)) s.dispatcher
    cases fault with
    | some fault => rfl
    | none =>
      have slept := t.sleepUntil_excused (t.clock.after length)
      exact congrArg (fun u : Dispatcher => Nap.slept ({ s with
        begun := s.begun + 1
        sleeps := length :: s.sleeps
        dispatcher := u } : Session)) slept

/-- The control thread does the same, whether or not bodies fail. -/
theorem mirrors_excused (script : Script) : (host script).Mirrors (host script) excused where
  start s := by
    have started := s.dispatcher.start_excused
    show (s.dispatcher.excused.start.scheduler.minInterval,
      { s with dispatcher := s.dispatcher.excused.start }) = _
    rw [started]
    rfl
  read _ := rfl
  sleep := sleep_excused script
  note _ _ := rfl
  tick now s := by
    have ticked := s.dispatcher.tick_excused now
    show ((s.dispatcher.excused.tick now).1,
      { s with dispatcher := (s.dispatcher.excused.tick now).2 }) = _
    rw [ticked]
    rfl

/-- A run of the loop comes to the same, whether or not bodies fail. -/
theorem run_excused (script : Script) (duration : Option Millis) (s : Session) :
    run script duration s.excused = (run script duration s).map id excused :=
  (mirrors_excused script).run duration maxRounds
    { dispatcher := { s.dispatcher with
        log := (Thread.rename s.thread Host.threadName).2.reverse ++ s.dispatcher.log }
      thread := (Thread.rename s.thread Host.threadName).1 }

end Session

end Cadence

import Cadence.Proofs.Execution

/-!
The backlog of the pool never overflows.

Its room is fixed when the pool is made, and no task can be registered any more from then on.  A
task that is handed over is not in progress, and those that wait are, so there is always room for it
(`Scheduler.Sound.room`).  A tick therefore fails only if the destination of its events makes it
fail, and so does a run of the dispatch loop (`Moment.Failed.raises`).
-/

namespace Cadence

/-- Once the pool exists, no task can be registered. -/
theorem Dispatcher.register_of_started {s : Dispatcher} (started : s.scheduler.started = true)
    (task : Option Task) (instant : Instant) :
    s.register task instant = .error (match task with
      | none => .noTask
      | some new => .alreadyStarted new.name) := by
  cases task with
  | none => rfl
  | some new =>
    simp [Dispatcher.register, Scheduler.register, Scheduler.refusal?, started]

namespace Moment

/-- In a tick, the evaluation of a task does not fail. -/
theorem Sound.consider_ne_fail {m : Moment} (sound : m.Sound) {name : String}
    (ahead : .consider name ∈ m.chores) (fault : Fault) :
    (m.dispatcher.consider name m.now).1 ≠ .fail fault := by
  intro failed
  have started := sound.started (List.ne_nil_of_mem ahead)
  have done : m.dispatcher.perform m.now (.consider name) =
      (.fail fault, (m.dispatcher.consider name m.now).2) := Prod.ext failed rfl
  obtain ⟨what, other, _⟩ := Dispatcher.perform_fails sound.scheduler started done
  cases other

/-- In a tick, a task that could start finds a pool with room for its job. -/
theorem Sound.room_of_chore {m : Moment} (sound : m.Sound) {e : Entry}
    (member : e ∈ m.dispatcher.scheduler.entries) (ahead : .consider e.task.name ∈ m.chores)
    (free : e.task.inProgress = false) :
    ∃ p, m.dispatcher.scheduler.pool = some p ∧ p.pending < p.capacity := by
  have started := sound.started (List.ne_nil_of_mem ahead)
  obtain ⟨p, present⟩ := Option.isSome_iff_exists.mp started
  have found := Scheduler.entry?_of_mem sound.scheduler.distinct member
  exact ⟨p, present, sound.scheduler.room found free present⟩

/-- A failure of a tick was raised by a hook. -/
theorem Failed.raises {allowed : Move → Prop} {m : Moment} (sound : m.Sound) {fault : Fault}
    {s : Dispatcher} (failed : Failed allowed m fault s) : s.sink.Raises fault := by
  obtain ⟨now, reached⟩ := failed
  exact (sound.of_reaches reached).faulted fault rfl

section

variable {m : Moment} (sound : m.Sound) (idle : m.idle = true)
include sound idle

theorem Sound.raises_of_tick {now : Instant} {fault : Fault}
    (failed : (m.dispatcher.tick now).1 = .fail fault) :
    (m.dispatcher.tick now).2.sink.Raises fault := by
  have rests : Rests (Move.Within (fun _ => True) fun _ => True) m m.dispatcher :=
    Rests.of_reaches .refl idle
  obtain ⟨before, last, reached⟩ := rests
  have done : m.dispatcher.tick now = (.fail fault, (m.dispatcher.tick now).2) :=
    Prod.ext failed rfl
  exact Failed.raises sound ⟨now, reached.trans (tick_reaches done)⟩

theorem Sound.raises_of_loop {σ : Type} {h : Host σ} {get : σ → Dispatcher}
    (keeps : h.Keeps (fun s => Rests (Move.Within (fun _ => True) fun _ => True) m (get s))
      fun fault s => Failed (Move.Within (fun _ => True) fun _ => True) m fault (get s))
    {duration : Option Millis} {rounds : Nat} {s : σ} {fault : Fault} (here : get s = m.dispatcher)
    (failed : (h.run duration rounds s).1 = .failed fault) :
    (get (h.run duration rounds s).2).sink.Raises fault := by
  have rests : Rests (Move.Within (fun _ => True) fun _ => True) m (get s) :=
    here ▸ Rests.of_reaches .refl idle
  exact ((Host.run_keeps keeps duration rounds rests).2 fault failed).raises sound

theorem Sound.raises_of_run {script : Script} {duration : Option Millis} {thread : String}
    {fault : Fault}
    (failed : (Session.run script duration { dispatcher := m.dispatcher, thread }).1 =
      .failed fault) :
    (Session.run script duration { dispatcher := m.dispatcher, thread }).2.dispatcher.sink.Raises
      fault := by
  have rests : Rests (Move.Within (fun _ => True) fun _ => True) m m.dispatcher :=
    Rests.of_reaches .refl idle
  have ended := Session.run_rests script (s := { dispatcher := m.dispatcher, thread })
    (fun _ => trivial) (fun _ _ _ => trivial) duration rests
  exact (ended.2 fault failed).raises sound

end

/-- The pool takes every job that a tick hands over. -/
structure NeverOverflows (m : Moment) : Prop where
  /-- The backlog has room for every task, and at least for one; the pool is not shut down. -/
  capacity : ∀ p, m.dispatcher.scheduler.pool = some p →
    p.capacity = max 1 m.dispatcher.scheduler.names.length ∧ p.closed = false
  /-- Once there is a pool, no step changes its room or the registered names. -/
  fixed : m.dispatcher.scheduler.started = true → ∀ move m', m.step? move = some m' →
    m'.dispatcher.scheduler.names = m.dispatcher.scheduler.names ∧
      m'.dispatcher.scheduler.pool.map (·.capacity) = m.dispatcher.scheduler.pool.map (·.capacity)
  /-- Once there is a pool, every registration is refused. -/
  closed : m.dispatcher.scheduler.started = true → ∀ task instant,
    ∃ fault, m.dispatcher.register task instant = .error fault
  /-- A task that is to be evaluated and could start finds a pool with room for its job. -/
  room : ∀ e ∈ m.dispatcher.scheduler.entries, .consider e.task.name ∈ m.chores →
    e.task.inProgress = false →
      ∃ p, m.dispatcher.scheduler.pool = some p ∧ p.pending < p.capacity
  /-- The evaluation of a task does not fail. -/
  evaluates : ∀ name, .consider name ∈ m.chores → ∀ fault,
    (m.dispatcher.consider name m.now).1 ≠ .fail fault
  /-- If the tick has failed, a hook raised the failure. -/
  fails : ∀ fault, m.verdict = .fail fault → m.dispatcher.sink.Raises fault
  /-- If a tick that is carried out now fails, a hook raised the failure. -/
  ticks : m.idle = true → ∀ now fault, (m.dispatcher.tick now).1 = .fail fault →
    (m.dispatcher.tick now).2.sink.Raises fault
  /-- If the dispatch loop is run now, for a time or without end, on a thread whose operations are
  moves, and ends with a failed tick, a hook raised the failure. -/
  loops : m.idle = true → ∀ (σ : Type) (h : Host σ) (get : σ → Dispatcher),
    h.Keeps (fun s => Rests (Move.Within (fun _ => True) fun _ => True) m (get s))
      (fun fault s => Failed (Move.Within (fun _ => True) fun _ => True) m fault (get s)) →
    ∀ duration rounds s fault, get s = m.dispatcher →
      (h.run duration rounds s).1 = .failed fault →
        (get (h.run duration rounds s).2).sink.Raises fault
  /-- So it is with a run under a script. -/
  runs : m.idle = true → ∀ script duration thread fault,
    (Session.run script duration { dispatcher := m.dispatcher, thread }).1 = .failed fault →
      (Session.run script duration { dispatcher := m.dispatcher, thread }).2.dispatcher.sink.Raises
        fault

variable {workers : Nat} {scheduler : Scheduler} {m : Moment}

/-- Whatever was done to a scheduler before, its pool takes every job that a tick hands over, and a
tick fails only if the destination of the events makes it fail. -/
theorem backlog_never_overflows (created : Scheduler.create workers = .ok scheduler)
    (reached : Reaches (fun _ => True) (initial scheduler) m) : m.NeverOverflows := by
  have sound := reached.sound created
  have length : m.dispatcher.scheduler.backlogCapacity =
      max 1 m.dispatcher.scheduler.names.length := by
    rw [Scheduler.backlogCapacity, Scheduler.names, List.length_map]
  refine ⟨?_, ?_, ?_, fun e member => sound.room_of_chore member,
    fun name ahead => sound.consider_ne_fail ahead, sound.faulted, ?_, ?_, ?_⟩
  · intro p present
    exact ⟨length ▸ sound.scheduler.capacity p present, sound.scheduler.running p present⟩
  · intro started move m' made
    have same := layout_step sound started made
    obtain ⟨names, pools⟩ := Prod.mk.inj same
    have capacities := congrArg (Option.map Prod.fst) pools
    rw [Option.map_map, Option.map_map] at capacities
    exact ⟨names, capacities⟩
  · intro started task instant
    exact ⟨_, Dispatcher.register_of_started started task instant⟩
  · intro idle now fault failed
    exact sound.raises_of_tick idle failed
  · intro idle σ h get keeps duration rounds s fault here failed
    exact sound.raises_of_loop idle keeps here failed
  · intro idle script duration thread fault failed
    exact sound.raises_of_run idle failed

/-! ## Two sample moments

The sample run ends between two ticks.  The other moment lies within a tick, when one task of two has been
handed over and no worker has taken its job. -/

namespace Handover

/-- What is done up to then. -/
def moves : List Move :=
  [.register (some Sample.gated) .epoch, .register (some Sample.brief) .epoch, .act (.setEnabled true),
    .tick ⟨1000000000⟩, .chore]

def moment : Moment := (lead (initial Sample.scheduler) moves).2

end Handover

/-- Within the tick a job waits, and the pool has room for that of the task that comes next. -/
theorem backlog_never_overflows_sample :
    (Sample.run.2.dispatcher.scheduler.started = true ∧ Sample.run.2.idle = true ∧
      Sample.run.2.NeverOverflows) ∧
    Handover.moment.chores = [.consider "brief"] ∧
    (∃ p, Handover.moment.dispatcher.scheduler.pool = some p ∧ p.backlog = ["gated"] ∧
      p.pending < p.capacity) ∧
    (∀ fault, (Handover.moment.dispatcher.consider "brief" Handover.moment.now).1 ≠ .fail fault) ∧
    Handover.moment.NeverOverflows := by
  have reached : Reaches (fun _ => True) (initial Sample.scheduler) Sample.run.2 :=
    (Sample.passes fun _ _ => trivial).reaches
  have reached' : Reaches (fun _ => True) (initial Sample.scheduler) Handover.moment :=
    (passes_lead (fun _ _ => trivial) (by decide +kernel)).reaches
  have between := backlog_never_overflows Sample.created reached
  have within := backlog_never_overflows Sample.created reached'
  obtain ⟨e, member, ahead, free⟩ : ∃ e ∈ Handover.moment.dispatcher.scheduler.entries,
      .consider e.task.name ∈ Handover.moment.chores ∧ e.task.inProgress = false := by decide +kernel
  have waiting : Handover.moment.dispatcher.scheduler.pool.map (·.backlog) = some ["gated"] := by
    decide +kernel
  obtain ⟨p, present, room⟩ := within.room e member ahead free
  refine ⟨⟨by decide +kernel, by decide +kernel, between⟩, by decide +kernel, ⟨p, present, ?_, room⟩,
    within.evaluates "brief" (by decide +kernel), within⟩
  rw [present] at waiting
  exact Option.some.inj waiting

end Moment

end Cadence

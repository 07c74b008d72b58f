import Cadence.Proofs.Jobs

/-!
What the evaluation of a task can come to, said once: `Considers` has a constructor for each way
through `Dispatcher.consider`, with the result and the scheduler afterwards.
-/

namespace Cadence

namespace Entry

/-- The slot is taken by a run that is marked for `now`. -/
def startRun (now : Instant) (e : Entry) : Entry :=
  { e.consumeSlot with task := e.consumeSlot.task.mark now }

/-- The slot is taken by an overrun after which the task has the health `next`. -/
def demote (next : Health) (e : Entry) : Entry :=
  { e.consumeSlot with task := { e.consumeSlot.task with health := next } }

@[simp] theorem task_consumeSlot (e : Entry) : e.consumeSlot.task = e.task := by
  -- by cases on the entry: the two due times are never to be compared by computation
  obtain ⟨task, due⟩ := e
  show (Entry.mk task (due.after task.interval)).task = task
  rfl

@[simp] theorem due_consumeSlot (e : Entry) :
    e.consumeSlot.due = e.due.after e.task.interval := rfl

@[simp] theorem task_startRun (now : Instant) (e : Entry) :
    (e.startRun now).task = e.task.mark now := by
  rw [startRun, task_consumeSlot]

@[simp] theorem due_startRun (now : Instant) (e : Entry) :
    (e.startRun now).due = e.due.after e.task.interval := rfl

@[simp] theorem task_demote (next : Health) (e : Entry) :
    (e.demote next).task = { e.task with health := next } := by
  rw [demote, task_consumeSlot]

@[simp] theorem due_demote (next : Health) (e : Entry) :
    (e.demote next).due = e.due.after e.task.interval := rfl

end Entry

/-- Two changes of an entry are one. -/
theorem Scheduler.modifyEntry_modifyEntry (s : Scheduler) (name : String) {f : Entry → Entry}
    (g : Entry → Entry) (keeps : ∀ e, (f e).task.name = e.task.name) :
    (s.modifyEntry name f).modifyEntry name g = s.modifyEntry name fun e => g (f e) := by
  simp only [modifyEntry, List.map_map]
  congr 1
  apply List.map_congr_left
  intro e _
  by_cases same : e.task.name = name <;> simp [same, keeps]

/-- An overrun of a task that is not muted changes its health, unless the task is critical. -/
theorem Task.overrun_next_ne {t : Task} {next : Health} {report : Bool} (audible : t.health ≠ .muted)
    (overrun : t.overrun = .demote next report) : next ≠ t.health := by
  unfold Task.overrun Health.overrun at overrun
  split at overrun
  · cases overrun
  · cases health : t.health with
    | muted => exact absurd health audible
    | healthy | slow | unlisted _ _ =>
      simp only [health] at overrun
      cases overrun
      simp

/-- An overrun stops the loop if and only if the task is critical. -/
theorem Task.overrun_eq_stop_iff {t : Task} : t.overrun = .stop ↔ t.has .critical = true := by
  unfold Task.overrun Health.overrun
  split
  · simp_all
  · cases t.health <;> simp_all

namespace Dispatcher

/-- A task is due: it is registered, and its next slot is not later than `now`. -/
structure Due (s : Dispatcher) (target : String) (now : Instant) (e : Entry) : Prop where
  found : s.scheduler.entry? target = some e
  due : ¬ now < e.due

/-- The ways through the evaluation of a task at `now`: what the tick has to do next, and the
scheduler afterwards. -/
inductive Considers (s : Dispatcher) (target : String) (now : Instant) :
    Chore.Result → Scheduler → Prop
  /-- No task of the name is due. -/
  | notDue (early : ∀ e, s.scheduler.entry? target = some e → now < e.due) :
    s.Considers target now (.proceed []) s.scheduler
  /-- The task is muted. -/
  | muted (e : Entry) (due : s.Due target now e) (muted : e.task.health = .muted) :
    s.Considers target now (.proceed [.record .muted target])
      (s.scheduler.modifyEntry target Entry.consumeSlot)
  /-- The mode does not admit the task. -/
  | refused (e : Entry) (due : s.Due target now e) (audible : e.task.health ≠ .muted)
    (denied : e.task.admittedBy s.scheduler.mode = false) :
    s.Considers target now (.proceed [.record .skippedForMode target])
      (s.scheduler.modifyEntry target Entry.consumeSlot)
  /-- The task is critical and still in progress. -/
  | blocked (e : Entry) (due : s.Due target now e) (audible : e.task.health ≠ .muted)
    (admitted : e.task.admittedBy s.scheduler.mode = true) (busy : e.task.inProgress = true)
    (critical : e.task.has .critical = true) :
    s.Considers target now .stop (s.scheduler.modifyEntry target Entry.consumeSlot)
  /-- The task is still in progress. -/
  | demoted (e : Entry) (next : Health) (report : Bool) (due : s.Due target now e)
    (audible : e.task.health ≠ .muted) (admitted : e.task.admittedBy s.scheduler.mode = true)
    (busy : e.task.inProgress = true) (overrun : e.task.overrun = .demote next report) :
    s.Considers target now (.proceed (skipChores target report))
      (s.scheduler.modifyEntry target (Entry.demote next))
  /-- The task is handed to the pool. -/
  | started (e : Entry) (pool : Pool String Run) (due : s.Due target now e)
    (audible : e.task.health ≠ .muted) (admitted : e.task.admittedBy s.scheduler.mode = true)
    (free : e.task.inProgress = false) (submitted : s.scheduler.poolOrNew.submit target = .ok pool) :
    s.Considers target now (.proceed [])
      { s.scheduler.modifyEntry target (Entry.startRun now) with pool := some pool }
  /-- The pool does not take the task. -/
  | rejected (e : Entry) (fault : Fault) (due : s.Due target now e)
    (free : e.task.inProgress = false)
    (refused : s.scheduler.poolOrNew.submit target = .error fault) :
    s.Considers target now (.fail fault) (s.scheduler.modifyEntry target (Entry.startRun now))

@[simp] theorem sink_demote (s : Dispatcher) (t : Task) (next : Health) :
    (s.demote t next).sink = s.sink := by
  unfold demote
  split <;> rfl

/-- Whether the backlog takes a job does not depend on the entries. -/
theorem poolOrNew_modifyEntry (s : Scheduler) (name : String) (f : Entry → Entry) :
    (s.modifyEntry name f).poolOrNew = s.poolOrNew := by
  simp [Scheduler.poolOrNew, Scheduler.backlogCapacity, Scheduler.modifyEntry]

/-- The evaluation of a task does not touch the sink. -/
theorem sink_consider {s t : Dispatcher} {target : String} {now : Instant} {result : Chore.Result}
    (done : s.consider target now = (result, t)) : t.sink = s.sink := by
  unfold consider evaluate refuse overrun submit at done
  repeat' split at done
  all_goals
    cases done
    simp [mark]

/-- Every evaluation of a task is one of those listed. -/
theorem considers {s t : Dispatcher} {target : String} {now : Instant} {result : Chore.Result}
    (done : s.consider target now = (result, t)) : s.Considers target now result t.scheduler := by
  unfold consider at done
  cases found : s.scheduler.entry? target with
  | none =>
    simp only [found] at done
    cases done
    exact .notDue (by simp [found])
  | some e =>
    simp only [found] at done
    by_cases early : now < e.due
    · rw [if_pos early] at done
      cases done
      exact .notDue (by simpa [found] using early)
    rw [if_neg early] at done
    have due : s.Due target now e := ⟨found, early⟩
    have name : e.task.name = target := Scheduler.entry?_name found
    have keeps : ∀ e : Entry, e.consumeSlot.task.name = e.task.name := by simp
    unfold evaluate at done
    by_cases muted : e.task.health = .muted
    · rw [if_pos muted, name] at done
      cases done
      exact .muted e due muted
    rw [if_neg muted] at done
    cases admitted : e.task.admittedBy s.scheduler.mode with
    | false =>
      rw [if_pos (by simp [Scheduler.modifyEntry, admitted]), refuse, name] at done
      cases done
      rw [scheduler_note, scheduler_modifyScheduler]
      exact .refused e due muted admitted
    | true =>
      rw [if_neg (by simp [Scheduler.modifyEntry, admitted])] at done
      cases busy : e.task.inProgress with
      | true =>
        rw [if_pos busy] at done
        unfold overrun at done
        cases outcome : e.task.overrun with
        | stop =>
          simp only [outcome] at done
          cases done
          rw [scheduler_note, scheduler_modifyScheduler]
          exact .blocked e due muted admitted busy (Task.overrun_eq_stop_iff.mp outcome)
        | demote next report =>
          simp only [outcome, name] at done
          cases done
          have changed := Task.overrun_next_ne muted outcome
          have after : ((s.scheduler.modifyEntry target Entry.consumeSlot).modifyTask target
              fun task => { task with health := next }) =
              s.scheduler.modifyEntry target (Entry.demote next) :=
            Scheduler.modifyEntry_modifyEntry _ _ _ keeps
          rw [demote, if_neg changed, setHealth, scheduler_modifyScheduler, scheduler_note,
            scheduler_modifyScheduler, name, after]
          exact .demoted e next report due muted admitted busy outcome
      | false =>
        rw [if_neg (by simp [busy]), name] at done
        have after : (s.scheduler.modifyEntry target Entry.consumeSlot).modifyTask target (·.mark now) =
            s.scheduler.modifyEntry target (Entry.startRun now) :=
          Scheduler.modifyEntry_modifyEntry _ _ _ keeps
        unfold submit Scheduler.submit mark at done
        simp only [scheduler_modifyScheduler, after, poolOrNew_modifyEntry] at done
        cases submitted : s.scheduler.poolOrNew.submit target with
        | ok pool =>
          simp only [submitted, Except.map] at done
          cases done
          exact .started e pool due muted admitted busy submitted
        | error fault =>
          simp only [submitted, Except.map] at done
          cases done
          simp only [scheduler_modifyScheduler, after]
          exact .rejected e fault due busy submitted

end Dispatcher

end Cadence

import Cadence.Proofs.Evaluation

/-!
The evaluation of a task is decided by its entry, the mode and the instant alone.

`Entry.ruling` is that decision; `Dispatcher.consider_eq` says that the evaluation of a task carries it
out.  Whatever leaves the entry and the mode alone therefore leaves the decision alone, and what is
carried out touches one entry, the log, and the end of the backlog.
-/

namespace Cadence

/-- What the evaluation of a task comes to. -/
structure Ruling where
  /-- What the tick has to do next; for a task that starts, the pool has the last word. -/
  result : Chore.Result := .proceed []
  /-- What becomes of the entry. -/
  change : Entry → Entry := id
  /-- What is logged. -/
  lines : History Line := []
  /-- Whether the task is handed to the pool. -/
  starts : Bool := false

namespace Entry

/-- What the evaluation of a task at `now` comes to under a mode. -/
def ruling (e : Entry) (mode : Mode) (now : Instant) : Ruling :=
  if now < e.due then {}
  else if e.task.health = .muted then
    { result := .proceed [.record .muted e.task.name], change := consumeSlot }
  else if !e.task.admittedBy mode then
    { result := .proceed [.record .skippedForMode e.task.name]
      change := consumeSlot
      lines := [⟨.debug, "Skipping " ++ e.task.name ++
        " collector execution since running in collector mode " ++ mode.name⟩] }
  else if e.task.inProgress then
    match e.task.overrun with
    | .stop =>
      { result := .stop
        change := consumeSlot
        lines := [⟨.critical,
          e.task.name ++ " is still in progress; it is critical and cannot be skipped"⟩] }
    | .demote next report =>
      { result := .proceed (Dispatcher.skipChores e.task.name report)
        change := demote next
        lines := [⟨.info, "Collector " ++ e.task.name ++ " " ++ e.task.health.name ++ " -> " ++
          next.name⟩] }
  else { change := startRun now, starts := true }

variable (e : Entry) (mode : Mode) (now : Instant)

/-- A ruling changes the health, the mark and the start time of the task, and nothing else of it. -/
theorem task_ruling_change (other : Entry) : ∃ health inProgress startTime,
    ((e.ruling mode now).change other).task =
      { other.task with health, inProgress, startTime } := by
  unfold ruling
  have consumed : ∃ health inProgress startTime,
      other.consumeSlot.task = { other.task with health, inProgress, startTime } := by
    rw [task_consumeSlot]
    exact ⟨other.task.health, other.task.inProgress, other.task.startTime, rfl⟩
  split
  · exact ⟨other.task.health, other.task.inProgress, other.task.startTime, rfl⟩
  split
  · exact consumed
  split
  · exact consumed
  split
  · split
    · exact consumed
    · rename_i next report _
      rw [task_demote]
      exact ⟨next, other.task.inProgress, other.task.startTime, rfl⟩
  · rw [task_startRun]
    exact ⟨other.task.health, true, now, rfl⟩

@[simp] theorem name_ruling_change (other : Entry) :
    ((e.ruling mode now).change other).task.name = other.task.name := by
  obtain ⟨_, _, _, same⟩ := e.task_ruling_change mode now other
  rw [same]

/-- A task that starts was not in progress. -/
theorem free_of_starts (starts : (e.ruling mode now).starts = true) :
    e.task.inProgress = false := by
  revert starts
  unfold ruling
  split
  · simp
  split
  · simp
  split
  · simp
  split
  · split <;> simp
  · rename_i free
    simpa using free

/-- When a task starts, the tick has nothing to do but to go on. -/
theorem result_of_starts (starts : (e.ruling mode now).starts = true) :
    (e.ruling mode now).result = .proceed [] := by
  revert starts
  unfold ruling
  split
  · simp
  split
  · simp
  split
  · simp
  split
  · split <;> simp
  · simp

/-- A ruling that stops the tick is made of a critical task in progress. -/
theorem busy_of_stop (stops : (e.ruling mode now).result = .stop) :
    e.task.inProgress = true ∧ e.task.has .critical = true := by
  revert stops
  unfold ruling
  split
  · simp
  split
  · simp
  split
  · simp
  split
  · rename_i busy
    split
    · rename_i stop
      exact fun _ => ⟨busy, Task.overrun_eq_stop_iff.mp stop⟩
    · simp
  · simp

end Entry

namespace Dispatcher

/-- Carries out a ruling on the task of a name. -/
def carry (s : Dispatcher) (name : String) (r : Ruling) : Chore.Result × Dispatcher :=
  let ruled := { s with
    scheduler := s.scheduler.modifyEntry name r.change
    log := r.lines ++ s.log }
  if r.starts then ruled.submit name else (r.result, ruled)

theorem modifyEntry_id (s : Scheduler) (name : String) : s.modifyEntry name id = s := by
  simp [Scheduler.modifyEntry]

/-- The evaluation of a task carries out the ruling on its entry. -/
theorem consider_eq (s : Dispatcher) (name : String) (now : Instant) : s.consider name now =
    match s.scheduler.entry? name with
    | some e => s.carry name (e.ruling s.scheduler.mode now)
    | none => (.proceed [], s) := by
  unfold consider
  cases found : s.scheduler.entry? name with
  | none => rfl
  | some e =>
    have same : e.task.name = name := Scheduler.entry?_name found
    have keeps : ∀ e : Entry, e.consumeSlot.task.name = e.task.name := by simp
    have mode : (s.scheduler.modifyEntry name Entry.consumeSlot).mode = s.scheduler.mode := rfl
    simp only
    unfold Entry.ruling
    by_cases early : now < e.due
    · rw [if_pos early, if_pos early]
      simp [carry, modifyEntry_id]
    rw [if_neg early, if_neg early]
    unfold evaluate
    by_cases muted : e.task.health = .muted
    · rw [if_pos muted, if_pos muted]
      rfl
    rw [if_neg muted, if_neg muted, scheduler_modifyScheduler, mode]
    cases admitted : e.task.admittedBy s.scheduler.mode with
    | false =>
      simp only [Bool.not_false, if_true, refuse, same]
      rfl
    | true =>
      simp only [Bool.not_true, Bool.false_eq_true, if_false]
      cases busy : e.task.inProgress with
      | true =>
        simp only [if_true]
        unfold overrun
        cases outcome : e.task.overrun with
        | stop => rfl
        | demote next report =>
          have changed := Task.overrun_next_ne muted outcome
          have after : (s.scheduler.modifyEntry name Entry.consumeSlot).modifyTask name
              (fun task => { task with health := next }) =
              s.scheduler.modifyEntry name (Entry.demote next) :=
            Scheduler.modifyEntry_modifyEntry _ _ _ keeps
          simp [carry, demote, changed, setHealth, modifyScheduler, note, same, after]
      | false =>
        have after : (s.scheduler.modifyEntry name Entry.consumeSlot).modifyTask name (·.mark now) =
            s.scheduler.modifyEntry name (Entry.startRun now) :=
          Scheduler.modifyEntry_modifyEntry _ _ _ keeps
        simp [carry, mark, modifyScheduler, same, after]

end Dispatcher

end Cadence

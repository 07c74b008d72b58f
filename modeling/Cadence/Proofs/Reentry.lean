import Cadence.Proofs.Histories

/-!
No task is run twice at a time, and no run is lost.

A task that was not in progress when it was registered is in progress exactly as long as it has an
unfinished job, and has at most one (`Standing.Path.jobs_eq`).  A job is unfinished until a worker
finishes it; nothing else takes it away (`Moment.outstanding_step`).
-/

namespace Cadence

/-- If no task is registered that is in progress already, there are as many unfinished jobs as tasks
in progress. -/
theorem Standing.Path.jobs_eq {may : Turn → Prop} {turns : History Turn} {st : Standing}
    (path : Standing.Path may turns st) (unmarked : ∀ turn, may turn → turn.marks = false) :
    st.jobs = st.busy.toNat := by
  induction path with
  | start => rfl
  | @step turns st st' turn before allowed step ih =>
    have moved := step.jobs_add
    rw [unmarked turn allowed, Bool.toNat_false] at moved
    omega

namespace Dispatcher

/-- Controls, permits and the passing of time do not touch the jobs. -/
theorem outstanding_act {s t : Dispatcher} {action : Action} (done : s.act action = .ok t) :
    t.scheduler.outstanding = s.scheduler.outstanding := by
  cases action with
  | setMode mode =>
    cases done
    simp [setMode, Scheduler.outstanding]
  | setEnabled on =>
    cases done
    simp [setEnabled, Scheduler.outstanding]
  | raise what => cases done
  | _ =>
    cases done
    rfl

/-- A chore takes no job away. -/
theorem outstanding_perform {s t : Dispatcher} {now : Instant} {chore : Chore}
    {result : Chore.Result} (done : s.perform now chore = (result, t)) (name : String) :
    s.scheduler.outstanding.count name ≤ t.scheduler.outstanding.count name := by
  cases chore with
  | consider target =>
    have considers := considers done
    generalize after : t.scheduler = scheduler at considers
    cases considers with
    | started e pool due audible admitted free submitted =>
      have moved := outstanding_of_submit (t := t.scheduler) submitted (by rw [after])
      rw [← after, moved.count_eq]
      exact List.count_le_count_cons
    | _ => exact Nat.le_refl _
  | record event target =>
    cases done
    exact Nat.le_refl _
  | note line =>
    cases done
    exact Nat.le_refl _
  | act action =>
    simp only [perform] at done
    split at done
    · rename_i acted
      cases done
      rw [outstanding_act acted]
    · cases done
      exact Nat.le_refl _

/-- The names of the jobs that wait. -/
def waiting (s : Dispatcher) : List String := (s.scheduler.pool.map (·.backlog)).getD []

/-- An unfinished job waits, or is held by a worker. -/
theorem outstanding_eq (s : Dispatcher) :
    s.scheduler.outstanding = s.waiting ++ s.held.map (·.name) := by
  unfold Scheduler.outstanding waiting held
  cases s.scheduler.pool <;> rfl

end Dispatcher

namespace Moment

variable {m m' : Moment} {move : Move}

/-- No step takes a job of a task away, unless it finishes a run of that task. -/
theorem outstanding_step (made : m.step? move = some m') {name : String}
    (other : ∀ run, move = .finish run → run.name ≠ name) :
    m.dispatcher.scheduler.outstanding.count name ≤
      m'.dispatcher.scheduler.outstanding.count name := by
  cases makes made with
  | registered idle unrefused unstarted unregistered => exact Nat.le_refl _
  | refused idle refused => exact Nat.le_refl _
  | started idle =>
    rw [withDispatcher, Dispatcher.scheduler_start, Scheduler.outstanding_start]
  | begun idle =>
    rw [beginTick, Dispatcher.opened]
    split
    · rw [Dispatcher.scheduler_start, Scheduler.outstanding_start]
    · exact Nat.le_refl _
  | performed left done => exact Dispatcher.outstanding_perform done name
  | noted idle => exact Nat.le_refl _
  | acted done => rw [withDispatcher, Dispatcher.outstanding_act done]
  | failed => exact Nat.le_refl _
  | hooked => exact Nat.le_refl _
  | taken taken => exact ((Dispatcher.outstanding_take taken).count_eq name).ge
  | @finished run held ready =>
    have freed := (Dispatcher.outstanding_finish held).count_eq name
    rw [List.count_cons_of_ne (other run rfl)] at freed
    exact freed.le

/-- A registered task is run at most once at a time, and no run of it is lost. -/
structure SingleRun (m : Moment) (e : Entry) : Prop where
  /-- There is at most one unfinished job of the task. -/
  single : m.dispatcher.scheduler.outstanding.count e.task.name ≤ 1
  /-- There is one exactly while the task is in progress. -/
  marked : m.dispatcher.scheduler.outstanding.count e.task.name = 1 ↔ e.task.inProgress = true
  /-- At most one worker is in the body of the task. -/
  alone : (m.dispatcher.held.map (·.name)).count e.task.name ≤ 1
  /-- A task in progress waits for a worker, or is held by one, and not both. -/
  somewhere : e.task.inProgress = true →
    (e.task.name ∈ m.dispatcher.waiting ↔ ¬ ∃ run ∈ m.dispatcher.held, run.name = e.task.name)
  /-- When its run is finished, the task is no longer in progress. -/
  cleared : ∀ run ∈ m.dispatcher.held, run.name = e.task.name →
    (m.dispatcher.finish run).scheduler.busy e.task.name = false
  /-- Until then no step ends its being in progress. -/
  kept : ∀ move m', m.step? move = some m' → (∀ run, move = .finish run → run.name ≠ e.task.name) →
    e.task.inProgress = true → m'.dispatcher.scheduler.busy e.task.name = true

variable {action : Action → Prop} {workers : Nat} {scheduler : Scheduler}

/-- Tasks that are registered unmarked. -/
def Unmarked (task : Task) : Prop := task.inProgress = false

/-- The unfinished jobs of a name are as many as its tasks in progress. -/
theorem Reaches.outstanding_eq (created : Scheduler.create workers = .ok scheduler)
    (reached : Reaches (Move.Within Unmarked action) (initial scheduler) m) (name : String) :
    m.dispatcher.scheduler.outstanding.count name =
      (m.dispatcher.scheduler.busy name).toNat := by
  obtain ⟨h, passed⟩ := reached.passes
  have unmarked : ∀ turn, Turn.Within Unmarked action name turn → turn.marks = false := by
    intro turn may
    cases turn with
    | enrolled task instant => exact may
    | _ => rfl
  have jobs := (passed.path created name).jobs_eq unmarked
  rw [Scheduler.busy, Scheduler.task?, Option.any_map]
  exact jobs

/-- However the control thread, the workers and the users of the controls interleave, each task that
was registered unmarked has an unfinished job exactly while it is in progress, and never two. -/
theorem outstanding_iff_in_progress (created : Scheduler.create workers = .ok scheduler)
    (reached : Reaches (Move.Within Unmarked fun _ => True) (initial scheduler) m) {e : Entry}
    (member : e ∈ m.dispatcher.scheduler.entries) : m.SingleRun e := by
  have sound := reached.sound created
  have found := Scheduler.entry?_of_mem sound.scheduler.distinct member
  have jobs := reached.outstanding_eq created e.task.name
  rw [Scheduler.busy_of_found found] at jobs
  have parts := jobs
  rw [Dispatcher.outstanding_eq, List.count_append] at parts
  have most := Bool.toNat_le e.task.inProgress
  refine ⟨by omega, ?_, by omega, ?_, ?_, ?_⟩
  · rw [jobs]
    cases e.task.inProgress <;> decide
  · intro busy
    rw [busy, Bool.toNat_true] at parts
    have holds : (∃ run ∈ m.dispatcher.held, run.name = e.task.name) ↔
        0 < (m.dispatcher.held.map (·.name)).count e.task.name := by
      rw [List.count_pos_iff, List.mem_map]
    rw [holds, ← List.count_pos_iff]
    omega
  · intro run held same
    have entry := m.dispatcher.entry?_finish_self run
    rw [same, found, Option.map_some] at entry
    rw [Scheduler.busy_of_found entry]
    rfl
  · intro move m' made other busy
    have kept := outstanding_step made other
    rw [jobs, busy, Bool.toNat_true] at kept
    exact (sound_step sound made).scheduler.busy_of_job
      (List.count_pos_iff.mp (by omega))

/-- In the sample run the task is in progress when its second slot comes due. -/
theorem outstanding_iff_in_progress_sample :
    ∃ e ∈ Sample.run.2.dispatcher.scheduler.entries,
      e.task.inProgress = true ∧ Sample.run.2.SingleRun e := by
  have reached : Reaches (Move.Within Unmarked fun _ => True) (initial Sample.scheduler) Sample.run.2 :=
    (Sample.passes (by simp [Sample.moves, Move.Within, Unmarked, Sample.gated])).reaches
  obtain ⟨e, member, busy⟩ : ∃ e ∈ Sample.run.2.dispatcher.scheduler.entries,
      e.task.inProgress = true := by decide +kernel
  exact ⟨e, member, busy, outstanding_iff_in_progress Sample.created reached member⟩

end Moment

end Cadence

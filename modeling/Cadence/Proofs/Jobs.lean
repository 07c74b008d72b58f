import Mathlib.Data.List.Nodup
import Mathlib.Data.List.Perm.Subperm
import Cadence.Proofs.Registry

/-!
The jobs of a scheduler that were handed to the pool and are not finished: each waits in the
backlog or is held by a worker.

A scheduler is `Sound` when its names are distinct, its pool has the room it was made with, and
there is at most one unfinished job for a task that is in progress, and none for any other.  A sound
scheduler has room for one more job as long as some task is not in progress (`Sound.room`).
-/

namespace Cadence

namespace Pool

/-- The names of the unfinished jobs: those that wait, then those that are held. -/
def jobs (p : Pool String Run) : List String := p.backlog ++ p.held.map (·.name)

theorem jobs_submit {p q : Pool String Run} {name : String} (submitted : p.submit name = .ok q) :
    q.jobs.Perm (name :: p.jobs) := by
  unfold submit at submitted
  split at submitted
  · cases submitted
  split at submitted
  · cases submitted
  · cases submitted
    simp [jobs]

theorem jobs_take? {p q : Pool String Run} {enter : String → Run} {name : String}
    (keeps : ∀ n, (enter n).name = n) (taken : p.take? enter = some (name, q)) :
    q.jobs.Perm p.jobs := by
  unfold take? at taken
  split at taken
  · rename_i job rest waiting
    split at taken
    · cases taken
      have moved : (rest ++ (p.held.map (·.name) ++ [name])).Perm
          (name :: (rest ++ p.held.map (·.name))) := by
        rw [← List.append_assoc]
        exact List.perm_append_singleton _ _
      simpa [jobs, waiting, keeps] using moved
    · cases taken
  · cases taken

theorem jobs_release {p : Pool String Run} {run : Run} (held : run ∈ p.held) :
    p.jobs.Perm (run.name :: (p.release run).jobs) := by
  have freed : (p.held.map (·.name)).Perm (run.name :: (p.held.erase run).map (·.name)) :=
    (List.perm_cons_erase held).map (·.name)
  exact (freed.append_left p.backlog).trans List.perm_middle

/-- A pool that is not shut down and has room takes a job. -/
theorem submit_of_room {p : Pool String Run} (opened : p.closed = false)
    (room : p.pending < p.capacity) (name : String) :
    p.submit name = .ok { p with backlog := p.backlog ++ [name] } := by
  unfold submit
  rw [if_neg (by simp [opened]), if_neg (Nat.not_le_of_lt room)]

end Pool

namespace Scheduler

/-- The names of the unfinished jobs. -/
def outstanding (s : Scheduler) : List String := (s.pool.map Pool.jobs).getD []

/-- Whether the task of a name is in progress. -/
def busy (s : Scheduler) (name : String) : Bool := (s.task? name).any (·.inProgress)

/-- What the making of the pool fixes: the names of the tasks, the room of the backlog, and whether
the pool is shut down. -/
def layout (s : Scheduler) : List String × Option (Nat × Bool) :=
  (s.names, s.pool.map fun p => (p.capacity, p.closed))

theorem outstanding_of_pool {s : Scheduler} {pool : Pool String Run}
    (present : s.pool = some pool) : s.outstanding = pool.jobs := by
  rw [outstanding, present, Option.map_some, Option.getD_some]

theorem outstanding_start (s : Scheduler) : s.start.outstanding = s.outstanding := by
  unfold outstanding start poolOrNew
  cases s.pool <;> rfl

/-- A scheduler whose unfinished jobs are those of tasks in progress, one for each at the most. -/
structure Sound (s : Scheduler) : Prop where
  /-- No name is registered twice. -/
  distinct : s.names.Nodup
  /-- The backlog has room for every task. -/
  capacity : ∀ p, s.pool = some p → p.capacity = s.backlogCapacity
  /-- The pool is not shut down. -/
  running : ∀ p, s.pool = some p → p.closed = false
  /-- A task in progress has at most one unfinished job, and any other name has none. -/
  single : ∀ name, s.outstanding.count name ≤ (s.busy name).toNat

variable {s : Scheduler} {name : String} {e : Entry} {p : Pool String Run}

theorem busy_of_found (found : s.entry? name = some e) : s.busy name = e.task.inProgress := by
  simp [busy, task?, found]

theorem registered_of_busy (busy : s.busy name = true) : name ∈ s.names := by
  by_contra absent
  have none := entry?_eq_none_iff.mpr absent
  simp [Scheduler.busy, task?, none] at busy

namespace Sound

theorem busy_of_job (sound : s.Sound) (job : name ∈ s.outstanding) : s.busy name = true := by
  have positive := List.count_pos_iff.mpr job
  have bound := sound.single name
  cases inProgress : s.busy name with
  | true => rfl
  | false =>
    rw [inProgress, Bool.toNat_false] at bound
    omega

/-- As long as some task is not in progress, one more job fits into the backlog. -/
theorem room (sound : s.Sound) (found : s.entry? name = some e) (free : e.task.inProgress = false)
    (present : s.pool = some p) : p.pending < p.capacity := by
  have jobs : s.outstanding = p.backlog ++ p.held.map (·.name) := outstanding_of_pool present
  have waits : ∀ n ∈ p.backlog, s.busy n = true := by
    intro n waiting
    exact sound.busy_of_job (jobs ▸ List.mem_append_left _ waiting)
  have idle : name ∉ p.backlog := by
    intro waiting
    have := waits name waiting
    rw [busy_of_found found, free] at this
    cases this
  have once : p.backlog.Nodup := by
    rw [List.nodup_iff_count_le_one]
    intro n
    have bound := sound.single n
    rw [jobs, List.count_append] at bound
    have := Bool.toNat_le (s.busy n)
    omega
  -- the task that is not in progress and those that wait are distinct registered tasks
  have members : (name :: p.backlog) ⊆ s.names := by
    intro n member
    rcases List.mem_cons.mp member with rfl | waiting
    · exact entry?_name found ▸ name_mem_names (mem_of_found found)
    · exact registered_of_busy (waits n waiting)
  have fits := (List.subperm_of_subset (List.nodup_cons.mpr ⟨idle, once⟩) members).length_le
  rw [sound.capacity p present]
  simp only [List.length_cons, names, List.length_map] at fits
  simp only [Pool.pending, backlogCapacity]
  omega

/-- What is fixed when the pool is made does not change by itself. -/
theorem of_layout (sound : s.Sound) {t : Scheduler} (same : t.layout = s.layout)
    (single : ∀ name, t.outstanding.count name ≤ (t.busy name).toNat) : t.Sound := by
  obtain ⟨names, pools⟩ := Prod.mk.inj same
  have room : t.backlogCapacity = s.backlogCapacity := by
    have := congrArg List.length names
    simp only [Scheduler.names, List.length_map] at this
    rw [backlogCapacity, this, backlogCapacity]
  have kept : ∀ q, t.pool = some q →
      ∃ p, s.pool = some p ∧ p.capacity = q.capacity ∧ p.closed = q.closed := by
    intro q present
    rw [present, Option.map_some] at pools
    obtain ⟨p, before, same⟩ := Option.map_eq_some_iff.mp pools.symm
    exact ⟨p, before, (Prod.mk.inj same).1, (Prod.mk.inj same).2⟩
  refine ⟨names ▸ sound.distinct, ?_, ?_, single⟩
  · intro q present
    obtain ⟨p, before, capacity, _⟩ := kept q present
    rw [← capacity, sound.capacity p before, room]
  · intro q present
    obtain ⟨p, before, _, closed⟩ := kept q present
    rw [← closed, sound.running p before]

end Sound

end Scheduler

end Cadence

import Cadence.Proofs.Custody

/-!
Workers that are left to themselves come to rest in one way.

Whichever worker takes or finishes first, the workers of a pool can make only so many steps, and they
always come to rest with the same jobs at their gates and the same jobs in the backlog
(`Yard.rests_in_one_way`).  Jobs are taken from the front of the backlog as long as fewer jobs are blocked
than there are workers (`Yard.Served`), which settles what is taken (`Yard.Served.unique`).
-/

namespace Cadence.Yard

variable {y z last : Yard} {h later : History Stage} {move : Move} {taken rest : List Job}

/-! ## Steps of the workers -/

/-- The move is a step of a worker. -/
def Move.IsWork : Move → Prop
  | .ask _ => False
  | .take | .finish _ => True

instance : DecidablePred Move.IsWork
  | .ask _ => .isFalse id
  | .take | .finish _ => .isTrue trivial

/-- Some steps of the workers lead from one yard to another. -/
def Works (y : Yard) (h : History Stage) (z : Yard) : Prop :=
  Runs y h z ∧ ∀ stage ∈ h, stage.move.IsWork

/-- No worker can make a step. -/
def Idle (y : Yard) : Prop := ∀ move : Move, move.IsWork → y.step? move = none

theorem Works.refl : y.Works [] y := ⟨.refl, fun _ stage => nomatch stage⟩

theorem Works.step (works : y.Works h z) (work : move.IsWork) (made : z.step? move = some last) :
    y.Works (⟨z, move⟩ :: h) last :=
  ⟨works.1.step made, List.forall_mem_cons.mpr ⟨work, works.2⟩⟩

/-- What the workers do by themselves is made of their steps. -/
theorem work_of_work? (worked : y.work? = some z) : ∃ move : Move, move.IsWork ∧ y.step? move = some z := by
  rcases Option.or_eq_some_iff.mp worked with finished | ⟨-, took⟩
  · obtain ⟨job, found, rfl⟩ := Option.map_eq_some_iff.mp finished
    exact ⟨.finish job, trivial, if_pos ⟨List.mem_of_find?_eq_some found, List.find?_some found⟩⟩
  · exact ⟨.take, trivial, took⟩

theorem works_settle (y : Yard) : ∃ h, y.Works h y.settle := by
  refine exhaust_invariant (fun z => ∃ h, y.Works h z) ?_ y.pool.weight y ⟨[], .refl⟩
  rintro u v ⟨h, works⟩ worked
  obtain ⟨move, work, made⟩ := work_of_work? worked
  exact ⟨_, works.step work made⟩

/-- Once the workers have settled, none of them can make a step. -/
theorem idle_settle (y : Yard) : y.settle.Idle := by
  have none := work?_settle y
  rintro (_ | _ | job) work
  · exact work.elim
  · exact (Option.or_eq_none_iff.mp none).2
  · refine if_neg ?_
    rintro ⟨held, ready⟩
    rw [unready_of_idle none held] at ready
    cases ready

/-! ## What is blocked, and what is taken -/

/-- The jobs of a list that are blocked at their gates. -/
def gated (y : Yard) (jobs : List Job) : List Job := jobs.filter fun job => !y.ready job

@[simp] theorem gated_append (earlier jobs : List Job) :
    y.gated (earlier ++ jobs) = y.gated earlier ++ y.gated jobs := List.filter_append ..

theorem gated_congr (opened : z.opened = y.opened) : z.gated = y.gated := by
  unfold gated ready
  rw [opened]

/-- A job that can finish is not blocked, so without it the same jobs are blocked. -/
theorem gated_erase {job : Job} (ready : y.ready job = true) (jobs : List Job) :
    y.gated (jobs.erase job) = y.gated jobs := by
  unfold gated
  rw [← List.erase_filter]
  exact List.erase_of_not_mem (by simp [ready])

/-- If all jobs of a list are blocked, then these are the whole list. -/
theorem gated_eq_self {jobs : List Job} (unready : ∀ job ∈ jobs, y.ready job = false) :
    y.gated jobs = jobs :=
  List.filter_eq_self.mpr fun job among => by simp [unready job among]

/-- No worker holds two jobs, and nothing waits in a pool that was shut down. -/
structure Manned (y : Yard) : Prop where
  crew : y.pool.held.length ≤ y.pool.workers
  shut : y.pool.closed = true → y.pool.backlog = []

/-- Every yard that a new pool comes to is one of these. -/
theorem Custody.manned {workers capacity : Nat} (custody : Custody workers capacity h y) : y.Manned where
  crew := custody.sizes.1 ▸ custody.crew
  shut := fun closed => by simpa [closed] using custody.closed

/-- From the front of the backlog these jobs are taken, and the rest is left: each was taken when fewer jobs
were blocked than there are workers, and if something is left, then as many are blocked. -/
structure Served (y : Yard) (taken rest : List Job) : Prop where
  front : y.pool.backlog = taken ++ rest
  room : ∀ earlier job later, taken = earlier ++ job :: later →
    (y.gated (y.pool.held ++ earlier)).length < y.pool.workers
  full : rest ≠ [] → (y.gated (y.pool.held ++ taken)).length = y.pool.workers

namespace Served

variable (served : y.Served taken rest)

include served

/-- Nothing is taken if as many jobs are blocked as there are workers. -/
theorem none_of_full (full : (y.gated y.pool.held).length = y.pool.workers) : taken = [] := by
  cases split : taken with
  | nil => rfl
  | cons job later =>
    have room := served.room [] job later split
    simp only [List.append_nil, full, Nat.lt_irrefl] at room

/-- The whole backlog is taken if fewer jobs block than there are workers. -/
theorem all_of_few (few : (y.gated (y.pool.held ++ y.pool.backlog)).length < y.pool.workers) :
    taken = y.pool.backlog := by
  cases left : rest with
  | nil => rw [served.front, left, List.append_nil]
  | cons job later =>
    have full := served.full (by simp [left])
    rw [served.front] at few
    simp only [gated_append, List.length_append] at few full
    omega

/-- If something is left, then the last job that is taken is the one that blocks the last worker. -/
theorem blocks_last (left : rest ≠ []) (earlier : List Job) (job : Job)
    (split : taken = earlier ++ [job]) : y.ready job = false := by
  have room := served.room earlier job [] split
  have full := served.full left
  cases ready : y.ready job with
  | false => rfl
  | true =>
    subst split
    simp only [gated, List.filter_append, List.filter_cons, List.filter_nil, ready, Bool.not_true,
      Bool.false_eq_true, ↓reduceIte, List.append_nil] at room full
    omega

/-- There is one way only to serve a backlog. -/
theorem unique {taken' rest' : List Job} (other : y.Served taken' rest') : taken = taken' ∧ rest = rest' := by
  have same := served.front.symm.trans other.front
  -- the job after the shorter part would have been taken when as many were blocked as there are workers
  rcases List.append_eq_append_iff.mp same with ⟨more, rfl, rfl⟩ | ⟨more, rfl, rfl⟩
  · cases more with
    | nil => simp
    | cons job later =>
      have room := other.room taken job later rfl
      have full := served.full (by simp)
      omega
  · cases more with
    | nil => simp
    | cons job later =>
      have room := served.room taken' job later rfl
      have full := other.full (by simp)
      omega

end Served

/-! ## While the workers go on -/

/-- What the workers have done so far: they took jobs from the front, and finished some. -/
structure Progress (y : Yard) (h : History Stage) (z : Yard) : Prop where
  pool : z.pool = { y.pool with backlog := z.pool.backlog, held := z.pool.held }
  opened : z.opened = y.opened
  queue : y.pool.backlog = h.started ++ z.pool.backlog
  /-- No job that is blocked has gone. -/
  blocked : y.gated z.pool.held = y.gated (y.pool.held ++ h.started)
  hands : (z.pool.held ++ z.finished).Perm (y.pool.held ++ h.started ++ y.finished)
  room : ∀ earlier job later, h.started = earlier ++ job :: later →
    (y.gated (y.pool.held ++ earlier)).length < y.pool.workers
  manned : z.Manned
  /-- Each step makes the pool lighter. -/
  weight : z.pool.weight + h.length = y.pool.weight

namespace Progress

theorem refl (manned : y.Manned) : y.Progress [] y := by
  constructor
  · rfl
  · rfl
  · simp [History.started, History.all]
  · simp [History.started, History.all]
  · simp [History.started, History.all]
  · intro earlier job later split
    simp [History.started, History.all] at split
  · exact manned
  · rfl

variable (progress : y.Progress h z)

include progress

theorem workers : z.pool.workers = y.pool.workers := by rw [progress.pool]

theorem capacity : z.pool.capacity = y.pool.capacity := by rw [progress.pool]

theorem closed : z.pool.closed = y.pool.closed := by rw [progress.pool]

/-- A worker takes the front job. -/
theorem take {job : Job} (front : z.pool.backlog = job :: rest)
    (free : z.pool.held.length < z.pool.workers) (made : z.step? .take = some last)
    (next : last = { z with pool := { z.pool with backlog := rest, held := z.pool.held ++ [job] } }) :
    y.Progress (⟨z, .take⟩ :: h) last := by
  have started : Stage.started? ⟨z, .take⟩ = some job := by simp [Stage.started?, front]
  subst next
  constructor
  · rw [progress.pool]
  · exact progress.opened
  · simp [started, progress.queue, front]
  · simp only [History.started_cons, started, Option.toList_some, ← List.append_assoc, gated_append,
      ← progress.blocked]
  · have moved := progress.hands.append_right [job]
    have turned (front back : List Job) : (front ++ back ++ [job]).Perm (front ++ [job] ++ back) := by
      rw [List.append_assoc, List.append_assoc]
      exact List.perm_append_comm.append_left front
    simpa [started] using (turned _ _).symm.trans (moved.trans (turned _ _))
  · -- the job that was taken last is the only new one
    intro earlier other later split
    rw [History.started_cons, started, Option.toList_some] at split
    rcases List.eq_nil_or_concat later with rfl | ⟨later, tail, rfl⟩
    · have blocked : (y.gated z.pool.held).length ≤ z.pool.held.length := List.length_filter_le ..
      rw [progress.blocked, (List.append_inj' split rfl).1] at blocked
      have workers := progress.workers
      omega
    · rw [List.concat_eq_append, ← List.cons_append, ← List.append_assoc] at split
      exact progress.room earlier other later (List.append_inj' split rfl).1
  · refine ⟨?_, ?_⟩
    · rw [List.length_append]
      exact free
    · intro closed
      have empty := progress.manned.shut closed
      rw [front] at empty
      cases empty
  · have weight := progress.weight
    simp only [Pool.weight, front, List.length_append, List.length_cons, List.length_nil] at weight ⊢
    omega

/-- A worker finishes a job. -/
theorem finish {job : Job} (held : job ∈ z.pool.held) (ready : z.ready job = true) :
    y.Progress (⟨z, .finish job⟩ :: h) (z.finish job) := by
  have ready' : y.ready job = true := by
    unfold Yard.ready at ready ⊢
    rwa [progress.opened] at ready
  have crew := progress.manned.crew
  have lighter := Pool.weight_release held
  constructor
  · simp [Yard.finish, Pool.release, progress.workers, progress.closed, progress.capacity]
  · exact progress.opened
  · simpa [Stage.started?, Yard.finish, Pool.release] using progress.queue
  · have same := progress.blocked
    rw [← gated_erase ready'] at same
    simpa [Stage.started?, Yard.finish, Pool.release] using same
  · simpa [Stage.started?] using (perm_finish held).trans progress.hands
  · simpa [Stage.started?] using progress.room
  · exact ⟨Nat.le_trans List.length_erase_le crew, progress.manned.shut⟩
  · have weight := progress.weight
    simp only [Yard.finish, List.length_cons]
    omega

theorem step (work : move.IsWork) (made : z.step? move = some last) :
    y.Progress (⟨z, move⟩ :: h) last := by
  cases makes made with
  | submitted | refused | unlocked | closed => exact work.elim
  | taken front free opened => exact progress.take front free made rfl
  | finished held ready => exact progress.finish held ready

/-- When no worker can make a step, exactly the jobs are held that are blocked. -/
theorem held_of_idle (idle : z.Idle) : z.pool.held = y.gated (y.pool.held ++ h.started) := by
  have unready : ∀ job ∈ z.pool.held, z.ready job = false := by
    intro job held
    cases ready : z.ready job with
    | false => rfl
    | true =>
      have made : z.step? (.finish job) = some (z.finish job) := if_pos ⟨held, ready⟩
      rw [idle (.finish job) trivial] at made
      cases made
  rw [← progress.blocked, ← gated_congr progress.opened, gated_eq_self unready]

/-- When no worker can make a step and something waits, all workers hold jobs. -/
theorem full_of_idle (idle : z.Idle) (waits : z.pool.backlog ≠ []) : z.pool.held.length = z.pool.workers := by
  obtain ⟨job, rest, front⟩ := List.exists_cons_of_ne_nil waits
  refine Nat.le_antisymm progress.manned.crew (Nat.le_of_not_lt fun free => ?_)
  have opened : z.pool.closed = false := by
    cases closed : z.pool.closed with
    | false => rfl
    | true => exact absurd (progress.manned.shut closed) waits
  have untaken := idle .take trivial
  simp [step?, take?, Pool.take?, front, free, opened] at untaken

theorem served (idle : z.Idle) : y.Served h.started z.pool.backlog where
  front := progress.queue
  room := progress.room
  full := by
    intro waits
    rw [← progress.held_of_idle idle, progress.full_of_idle idle waits, progress.workers]

end Progress

theorem Works.progress (manned : y.Manned) (works : y.Works h z) : y.Progress h z := by
  obtain ⟨runs, only⟩ := works
  induction runs with
  | refl => exact .refl manned
  | step before made ih =>
    obtain ⟨work, only⟩ := List.forall_mem_cons.mp only
    exact (ih only).step work made

/-! ## At rest -/

/-- The workers of `y` have come to rest in `z` by the steps `h`: they took these jobs and left the rest. -/
structure Rested (y : Yard) (taken rest : List Job) (h : History Stage) (z : Yard) : Prop where
  /-- Exactly the jobs that are blocked are held, and the rest waits in its order. -/
  pool : z.pool = { y.pool with backlog := rest, held := y.gated (y.pool.held ++ taken) }
  opened : z.opened = y.opened
  /-- These jobs were started, in their order, and no others. -/
  started : h.started = taken
  /-- The jobs that were not blocked have finished, each once. -/
  finished : z.finished.Perm ((y.pool.held ++ taken).filter y.ready ++ y.finished)
  /-- If something waits, then every worker is blocked. -/
  busy : 0 < z.pool.pending →
    z.pool.held.length = z.pool.workers ∧ ∀ job ∈ z.pool.held, z.ready job = false

theorem Progress.rested (progress : y.Progress h z) (idle : z.Idle) :
    y.Rested h.started z.pool.backlog h z where
  pool := by
    have held := progress.held_of_idle idle
    rw [progress.pool, held]
  opened := progress.opened
  started := rfl
  finished := by
    have hands := progress.hands
    rw [progress.held_of_idle idle] at hands
    have parts := List.filter_append_perm y.ready (y.pool.held ++ h.started)
    have turned : (y.gated (y.pool.held ++ h.started) ++ (y.pool.held ++ h.started).filter y.ready).Perm
        (y.pool.held ++ h.started) := List.perm_append_comm.trans parts
    have both := hands.trans (turned.symm.append_right y.finished)
    rw [List.append_assoc] at both
    exact (List.perm_append_left_iff _).mp both
  busy := by
    intro waits
    refine ⟨progress.full_of_idle idle (List.ne_nil_of_length_pos waits), ?_⟩
    intro job held
    rw [progress.held_of_idle idle, ← gated_congr progress.opened] at held
    simpa using (List.mem_filter.mp held).2

/-- However the workers interleave, they make only so many steps, can always come to rest, and have then
taken the same jobs, hold the same jobs and left the same jobs; the workers that settle come to rest so. -/
theorem rests_in_one_way (manned : y.Manned) :
    ∃ taken rest, y.Served taken rest ∧
      ((y.gated y.pool.held).length = y.pool.workers → taken = []) ∧
      ((y.gated (y.pool.held ++ y.pool.backlog)).length < y.pool.workers → taken = y.pool.backlog) ∧
      (rest ≠ [] → ∀ earlier job, taken = earlier ++ [job] → y.ready job = false) ∧
      (∀ h z, y.Works h z → h.length ≤ y.pool.weight ∧
        (∃ later last, z.Works later last ∧ last.Idle) ∧ (z.Idle → y.Rested taken rest h z)) ∧
      ∃ h, y.Works h y.settle ∧ y.Rested taken rest h y.settle := by
  obtain ⟨h, settled⟩ := works_settle y
  have progress := settled.progress manned
  have served := progress.served (idle_settle y)
  refine ⟨_, _, served, served.none_of_full, served.all_of_few, served.blocks_last, ?_, h, settled,
    progress.rested (idle_settle y)⟩
  intro h z works
  have progress := works.progress manned
  refine ⟨by have := progress.weight; omega, ?_, fun idle => ?_⟩
  · obtain ⟨later, rests⟩ := works_settle z
    exact ⟨later, z.settle, rests, idle_settle z⟩
  · obtain ⟨same, left⟩ := served.unique (progress.served idle)
    rw [same, left]
    exact progress.rested idle

namespace Sample

/-- Two workers, one of which holds a job that can finish, and jobs that wait. -/
def crowd : Yard where
  pool := {
    workers := 2
    capacity := 4
    held := [⟨"a", .quick⟩]
    backlog := [⟨"b", .gated⟩, ⟨"c", .quick⟩, ⟨"d", .gated⟩, ⟨"e", .quick⟩] }

/-- The workers of the crowd come to rest. -/
def rests : History Stage × Yard :=
  lead crowd [.take, .finish ⟨"a", .quick⟩, .take, .finish ⟨"c", .quick⟩, .take]

end Sample

/-- The crowd comes to rest with two jobs blocked and one left. -/
theorem rests_in_one_way_sample :
    Sample.crowd.Rested [⟨"b", .gated⟩, ⟨"c", .quick⟩, ⟨"d", .gated⟩] [⟨"e", .quick⟩]
      Sample.rests.1 Sample.rests.2 := by
  obtain ⟨taken, rest, served, -, -, -, works, -⟩ :=
    rests_in_one_way (y := Sample.crowd) ⟨by decide, by decide⟩
  have run : Sample.crowd.Works Sample.rests.1 Sample.rests.2 :=
    ⟨runs_lead (by decide +kernel), by decide +kernel⟩
  have idle : Sample.rests.2.Idle := by
    have last : Sample.rests.2 = Sample.crowd.settle := by decide +kernel
    exact last ▸ idle_settle _
  have rested := (works _ _ run).2.2 idle
  have started : Sample.rests.1.started = [⟨"b", .gated⟩, ⟨"c", .quick⟩, ⟨"d", .gated⟩] := by decide +kernel
  have left : Sample.rests.2.pool.backlog = [⟨"e", .quick⟩] := by decide +kernel
  rw [rested.pool] at left
  rw [← started, ← left, rested.started]
  exact rested

end Cadence.Yard

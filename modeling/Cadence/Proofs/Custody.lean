import Mathlib.Data.List.Perm.Basic
import Cadence.Yard.Interleaving

/-!
No job is lost, run twice or overtaken.

However the workers and the users of a pool interleave, the jobs that were accepted are, in the order of
their submission, those that were started, those that wait, and those that were dropped; what was started
is held or finished (`Yard.Runs.custody`).  A pool that was shut down starts nothing more, and each job
that is still held then finishes once its gate is open (`Yard.custody_of_jobs`).
-/

namespace Cadence

namespace History

variable {h : History Yard.Stage} {stage : Yard.Stage}

theorem started_append (later : History Yard.Stage) :
    History.started (later ++ h) = h.started ++ later.started := by
  simp [started, all]

theorem dropped_append (later : History Yard.Stage) :
    History.dropped (later ++ h) = h.dropped ++ later.dropped := by
  simp [dropped, all]

@[simp] theorem accepted_cons :
    History.accepted (stage :: h) = h.accepted ++ stage.accepted?.toList := by
  simp only [accepted, all, List.reverse_cons, List.filterMap_append]
  cases found : stage.accepted? <;> simp [found]

@[simp] theorem started_cons :
    History.started (stage :: h) = h.started ++ stage.started?.toList := by
  simp only [started, all, List.reverse_cons, List.filterMap_append]
  cases found : stage.started? <;> simp [found]

@[simp] theorem dropped_cons : History.dropped (stage :: h) = h.dropped ++ stage.dropped := by
  simp [dropped, all]

end History

namespace Yard

variable {y z first : Yard} {h : History Stage} {move : Move} {workers capacity : Nat}

/-! ## Moves -/

/-- The ways in which a move leads from a yard to the next. -/
inductive Makes (y : Yard) : Move → Yard → Prop
  | submitted {job : Job} (opened : y.pool.closed = false) (room : y.pool.pending < y.pool.capacity) :
    y.Makes (.ask (.submit job)) { y with pool := { y.pool with backlog := y.pool.backlog ++ [job] } }
  /-- A job is refused. -/
  | refused {job : Job} {fault : Fault} (refused : y.pool.submit job = .error fault) :
    y.Makes (.ask (.submit job)) y
  | unlocked {id : String} : y.Makes (.ask (.unlock id)) { y with opened := id :: y.opened }
  | closed : y.Makes (.ask .close) { y with pool := y.pool.close }
  /-- A worker takes the front job. -/
  | taken {job : Job} {rest : List Job} (front : y.pool.backlog = job :: rest)
    (free : y.pool.held.length < y.pool.workers) (opened : y.pool.closed = false) :
    y.Makes .take { y with pool := { y.pool with backlog := rest, held := y.pool.held ++ [job] } }
  | finished {job : Job} (held : job ∈ y.pool.held) (ready : y.ready job = true) :
    y.Makes (.finish job) (y.finish job)

/-- Every step is one of those listed. -/
theorem makes (made : y.step? move = some z) : y.Makes move z := by
  cases move with
  | ask step =>
    cases step with
    | submit job =>
      cases submitted : y.pool.submit job with
      | error fault =>
        simp only [step?, apply, submitted, Except.map, Option.some.injEq] at made
        exact made ▸ .refused submitted
      | ok pool =>
        simp only [step?, apply, submitted, Except.map, Option.some.injEq] at made
        subst made
        unfold Pool.submit at submitted
        split at submitted
        · cases submitted
        rename_i opened
        split at submitted
        · cases submitted
        rename_i room
        cases submitted
        exact .submitted (by simpa using opened) (Nat.lt_of_not_le room)
    | unlock id =>
      cases made
      exact .unlocked
    | close =>
      cases made
      exact .closed
  | take =>
    obtain ⟨⟨job, pool⟩, taken, rfl⟩ := Option.map_eq_some_iff.mp made
    unfold Pool.take? at taken
    split at taken
    · rename_i front rest waiting
      split at taken
      · rename_i may
        cases taken
        exact .taken waiting may.1 (by simpa using may.2)
      · cases taken
    · cases taken
  | finish job =>
    simp only [step?] at made
    split at made
    · rename_i may
      cases made
      exact .finished may.1 may.2
    · cases made

/-- A job that finishes goes from those that are held to those that are finished. -/
theorem perm_finish {job : Job} (held : job ∈ y.pool.held) :
    ((y.finish job).pool.held ++ (y.finish job).finished).Perm (y.pool.held ++ y.finished) := by
  have freed : (y.pool.held ++ y.finished).Perm (job :: (y.pool.held.erase job ++ y.finished)) :=
    (List.perm_cons_erase held).append_right y.finished
  exact (freed.trans List.perm_middle.symm).symm

/-! ## Who has a job -/

/-- Where the jobs are that were accepted. -/
structure Custody (workers capacity : Nat) (h : History Stage) (y : Yard) : Prop where
  sizes : y.pool.workers = workers ∧ y.pool.capacity = capacity
  /-- In the order of their submission they were started, or wait, or were dropped. -/
  queue : h.accepted = h.started ++ y.pool.backlog ++ h.dropped
  /-- What was started is held by a worker, or finished. -/
  hands : h.started.Perm (y.pool.held ++ y.finished)
  /-- No worker holds two jobs. -/
  crew : y.pool.held.length ≤ workers
  room : y.pool.pending ≤ capacity
  /-- Jobs are dropped when the pool is shut down, and then none is left that waits. -/
  closed : if y.pool.closed then y.pool.backlog = [] else h.dropped = []
  /-- A single worker finishes jobs in the order in which it takes them. -/
  alone : workers = 1 → h.started = History.all y.finished ++ y.pool.held

namespace Custody

/-- A new pool has no jobs. -/
theorem create (created : create workers capacity = .ok y) : Custody workers capacity [] y := by
  unfold Yard.create Pool.create at created
  split at created
  · cases created
  split at created
  · cases created
  cases created
  constructor <;> simp [History.accepted, History.started, History.dropped, History.all, Pool.pending]

/-- A step that accepts, starts and drops nothing, and leaves the pool as it is. -/
theorem keep (custody : Custody workers capacity h y) {stage : Stage} (accepted : stage.accepted? = none)
    (started : stage.started? = none) (dropped : stage.dropped = []) (pool : z.pool = y.pool)
    (finished : z.finished = y.finished) : Custody workers capacity (stage :: h) z := by
  constructor
  · simpa [pool] using custody.sizes
  · simpa [accepted, started, dropped, pool] using custody.queue
  · simpa [started, pool, finished] using custody.hands
  · simpa [pool] using custody.crew
  · simpa [pool] using custody.room
  · simpa [dropped, pool] using custody.closed
  · simpa [started, pool, finished] using custody.alone

theorem refused (custody : Custody workers capacity h y) {job : Job} {fault : Fault}
    (refused : y.pool.submit job = .error fault) :
    Custody workers capacity (⟨y, .ask (.submit job)⟩ :: h) y :=
  custody.keep (by simp [Stage.accepted?, refused, Except.toOption]) rfl rfl rfl rfl

theorem unlocked (custody : Custody workers capacity h y) (id : String) :
    Custody workers capacity (⟨y, .ask (.unlock id)⟩ :: h) { y with opened := id :: y.opened } :=
  custody.keep rfl rfl rfl rfl rfl

theorem submitted (custody : Custody workers capacity h y) {job : Job}
    (opened : y.pool.closed = false) (room : y.pool.pending < y.pool.capacity) :
    Custody workers capacity (⟨y, .ask (.submit job)⟩ :: h)
      { y with pool := { y.pool with backlog := y.pool.backlog ++ [job] } } := by
  have accepted : Stage.accepted? ⟨y, .ask (.submit job)⟩ = some job := by
    simp [Stage.accepted?, Pool.submit, opened, Nat.not_le.mpr room, Except.toOption]
  have undropped : h.dropped = [] := by simpa [opened] using custody.closed
  have size := custody.sizes.2
  constructor
  · exact custody.sizes
  · simp [accepted, Stage.started?, Stage.dropped, custody.queue, undropped]
  · simpa [Stage.started?] using custody.hands
  · exact custody.crew
  · simp only [Pool.pending, List.length_append, List.length_singleton] at room ⊢
    omega
  · simpa [opened, Stage.dropped] using undropped
  · simpa [Stage.started?] using custody.alone

/-- The jobs that waited are dropped. -/
theorem close (custody : Custody workers capacity h y) :
    Custody workers capacity (⟨y, .ask .close⟩ :: h) { y with pool := y.pool.close } := by
  -- either nothing was dropped before, or nothing waits
  have turned : y.pool.backlog ++ h.dropped = h.dropped ++ y.pool.backlog := by
    have closed := custody.closed
    split at closed
    · simp [closed]
    · simp [closed]
  constructor
  · exact custody.sizes
  · simp [Stage.accepted?, Stage.started?, Stage.dropped, custody.queue, turned, Pool.close]
  · simpa [Stage.started?, Pool.close] using custody.hands
  · exact custody.crew
  · simp [Pool.close, Pool.pending]
  · simp [Pool.close]
  · simpa [Stage.started?, Pool.close] using custody.alone

/-- The front job goes from the backlog to a worker. -/
theorem taken (custody : Custody workers capacity h y) {job : Job} {rest : List Job}
    (front : y.pool.backlog = job :: rest) (free : y.pool.held.length < y.pool.workers)
    (opened : y.pool.closed = false) : Custody workers capacity (⟨y, .take⟩ :: h)
      { y with pool := { y.pool with backlog := rest, held := y.pool.held ++ [job] } } := by
  have started : Stage.started? ⟨y, .take⟩ = some job := by simp [Stage.started?, front]
  have size := custody.sizes.1
  have room := custody.room
  have queue := custody.queue
  simp only [Pool.pending, front, List.length_cons] at room
  rw [front] at queue
  constructor
  · exact custody.sizes
  · simp [Stage.accepted?, started, Stage.dropped, queue]
  · have moved := custody.hands.append_right [job]
    rw [List.append_assoc] at moved
    have turned : (y.finished ++ [job]).Perm ([job] ++ y.finished) := List.perm_append_comm
    simpa [started] using moved.trans (turned.append_left y.pool.held)
  · simp only [List.length_append, List.length_singleton]
    omega
  · simp only [Pool.pending]
    omega
  · simpa [opened, Stage.dropped] using custody.closed
  · intro one
    simp [started, custody.alone one]

/-- A job goes from its worker to those that are finished. -/
theorem finished (custody : Custody workers capacity h y) {job : Job} (held : job ∈ y.pool.held) :
    Custody workers capacity (⟨y, .finish job⟩ :: h) (y.finish job) := by
  have crew := custody.crew
  constructor
  · exact custody.sizes
  · simpa [Stage.accepted?, Stage.started?, Stage.dropped, Yard.finish, Pool.release] using custody.queue
  · simpa [Stage.started?] using custody.hands.trans (perm_finish held).symm
  · have fewer : (y.pool.held.erase job).length ≤ y.pool.held.length := List.length_erase_le
    exact Nat.le_trans fewer crew
  · exact custody.room
  · simpa [Stage.dropped, Yard.finish, Pool.release] using custody.closed
  · intro one
    have only : y.pool.held = [job] := by
      obtain ⟨a, rest, both⟩ := List.exists_cons_of_ne_nil (List.ne_nil_of_mem held)
      rw [both, List.length_cons] at crew
      obtain rfl : rest = [] := List.length_eq_zero_iff.mp (by omega)
      rw [both, List.mem_singleton] at held
      rw [both, held]
    have before := custody.alone one
    rw [only] at before
    simp [Stage.started?, before, Yard.finish, Pool.release, only, History.all]

theorem step (custody : Custody workers capacity h y) (made : y.step? move = some z) :
    Custody workers capacity (⟨y, move⟩ :: h) z := by
  cases makes made with
  | submitted opened room => exact custody.submitted opened room
  | refused refused => exact custody.refused refused
  | unlocked => exact custody.unlocked _
  | closed => exact custody.close
  | taken front free opened => exact custody.taken front free opened
  | finished held ready => exact custody.finished held

end Custody

/-- In every run each job that was accepted is accounted for. -/
theorem Runs.custody (created : create workers capacity = .ok first) (runs : Runs first h y) :
    Custody workers capacity h y := by
  induction runs with
  | refl => exact .create created
  | step before made ih => exact ih.step made

/-! ## After the pool was shut down -/

/-- Once a pool is shut down, a step starts nothing and drops nothing, and jobs go from the workers to
those that are finished at the most. -/
theorem closed_step (closed : y.pool.closed = true) (empty : y.pool.backlog = [])
    (made : y.step? move = some z) :
    (z.pool.closed = true ∧ z.pool.backlog = []) ∧
      (Stage.started? ⟨y, move⟩ = none ∧ Stage.dropped ⟨y, move⟩ = []) ∧
      (z.pool.held ++ z.finished).Perm (y.pool.held ++ y.finished) := by
  cases makes made with
  | submitted opened room =>
    rw [closed] at opened
    cases opened
  | refused refused => exact ⟨⟨closed, empty⟩, ⟨rfl, rfl⟩, .refl _⟩
  | unlocked => exact ⟨⟨closed, empty⟩, ⟨rfl, rfl⟩, .refl _⟩
  | closed => exact ⟨⟨rfl, rfl⟩, ⟨rfl, empty⟩, .refl _⟩
  | taken front free opened =>
    rw [closed] at opened
    cases opened
  | finished held ready => exact ⟨⟨closed, empty⟩, ⟨rfl, rfl⟩, perm_finish held⟩

/-- Once a pool is shut down, nothing is started or dropped any more, and what was held is held or
finished. -/
theorem Runs.of_closed (closed : first.pool.closed = true) (empty : first.pool.backlog = [])
    (runs : Runs first h y) :
    (y.pool.closed = true ∧ y.pool.backlog = []) ∧ (h.started = [] ∧ h.dropped = []) ∧
      (y.pool.held ++ y.finished).Perm (first.pool.held ++ first.finished) := by
  induction runs with
  | refl => exact ⟨⟨closed, empty⟩, ⟨rfl, rfl⟩, .refl _⟩
  | step before made ih =>
    obtain ⟨⟨closed₁, empty₁⟩, ⟨unstarted, undropped⟩, kept⟩ := ih
    obtain ⟨shut, ⟨untaken, kept₂⟩, moved⟩ := closed_step closed₁ empty₁ made
    exact ⟨shut, ⟨by simp [unstarted, untaken], by simp [undropped, kept₂]⟩, moved.trans kept⟩

/-! ## The workers by themselves -/

/-- What a worker does is one of the moves, and opens no gate. -/
theorem move_of_work? (worked : y.work? = some z) :
    (∃ move, y.step? move = some z) ∧ z.opened = y.opened := by
  cases found : y.pool.held.find? y.ready with
  | some job =>
    simp only [work?, finish?, found, Option.map_some, Option.some_or, Option.some.injEq] at worked
    subst worked
    have may : job ∈ y.pool.held ∧ y.ready job = true :=
      ⟨List.mem_of_find?_eq_some found, List.find?_some found⟩
    exact ⟨⟨.finish job, if_pos may⟩, rfl⟩
  | none =>
    simp only [work?, finish?, found, Option.map_none, Option.none_or] at worked
    obtain ⟨taken, took, rfl⟩ := Option.map_eq_some_iff.mp worked
    exact ⟨⟨.take, worked⟩, rfl⟩

/-- When no worker can make a step, each job that is still held waits at a gate nobody opened. -/
theorem unready_of_idle (idle : y.work? = none) {job : Job} (held : job ∈ y.pool.held) :
    y.ready job = false := by
  have unfinished : y.finish? = none := by
    cases finished : y.finish? with
    | none => rfl
    | some z =>
      rw [work?, finished, Option.some_or] at idle
      cases idle
  have unready := List.find?_eq_none.mp (Option.map_eq_none_iff.mp unfinished)
  simpa using unready job held

/-- When the workers of a pool that was shut down have settled, the same gates are open, and what was held
is held or finished. -/
theorem settle_of_closed (closed : y.pool.closed = true) (empty : y.pool.backlog = []) :
    y.settle.opened = y.opened ∧
      (y.settle.pool.held ++ y.settle.finished).Perm (y.pool.held ++ y.finished) := by
  refine (exhaust_invariant (fun z => (z.pool.closed = true ∧ z.pool.backlog = []) ∧ z.opened = y.opened ∧
    (z.pool.held ++ z.finished).Perm (y.pool.held ++ y.finished)) ?_ y.pool.weight y
      ⟨⟨closed, empty⟩, rfl, .refl _⟩).2
  rintro u v ⟨⟨closed, empty⟩, opened, kept⟩ worked
  obtain ⟨⟨move, made⟩, same⟩ := move_of_work? worked
  obtain ⟨shut, _, moved⟩ := closed_step closed empty made
  exact ⟨shut, same.trans opened, moved.trans kept⟩

/-- A job that is held by a worker of a pool that was shut down finishes when its gate is opened. -/
theorem finishes_unlocked (closed : y.pool.closed = true) (empty : y.pool.backlog = []) (job : Job) :
    ∃ z, y.perform (.unlock job.id) = .ok z ∧ job ∉ z.pool.held ∧
      z.finished.count job = y.pool.held.count job + y.finished.count job := by
  have kept : ∀ u : Yard, u.pool.closed = true → u.pool.backlog = [] → job.id ∈ u.opened →
      job ∉ u.settle.pool.held ∧
        u.settle.finished.count job = u.pool.held.count job + u.finished.count job := by
    intro u closed empty opened
    obtain ⟨same, moved⟩ := settle_of_closed closed empty
    have gone : job ∉ u.settle.pool.held := by
      intro held
      have unready := unready_of_idle (work?_settle u) held
      simp [ready, same, opened] at unready
    refine ⟨gone, ?_⟩
    have count := moved.count_eq job
    rw [List.count_append, List.count_append, List.count_eq_zero_of_not_mem gone, Nat.zero_add] at count
    exact count
  obtain ⟨gone, count⟩ := kept { y with opened := job.id :: y.opened } closed empty List.mem_cons_self
  exact ⟨_, rfl, gone, count⟩

/-! ## Whole runs -/

/-- A run can be cut at each of its moves. -/
theorem Runs.split {earlier later : History Stage} {stage : Stage}
    (runs : Runs first (later ++ stage :: earlier) y) :
    Runs first earlier stage.before ∧ ∃ z, stage.before.step? stage.move = some z ∧ Runs z later y := by
  induction later generalizing y with
  | nil =>
    cases runs with
    | step before made => exact ⟨before, y, made, .refl⟩
  | cons last later ih =>
    cases runs with
    | step before made =>
      obtain ⟨whole, z, cut, rest⟩ := ih before
      exact ⟨whole, z, cut, rest.step made⟩

/-- What holds of the jobs of a pool. -/
structure Accounted (workers capacity : Nat) (h : History Stage) (y : Yard) : Prop where
  /-- Each job that was accepted waits, is held by a worker, is finished, or was dropped. -/
  places : h.accepted.Perm (y.pool.backlog ++ y.pool.held ++ y.finished ++ h.dropped)
  /-- The jobs are started in the order in which they were accepted, each of them once at the most. -/
  order : h.started <+: h.accepted
  /-- What was started is held or finished. -/
  hands : h.started.Perm (y.pool.held ++ y.finished)
  /-- A single worker finishes the jobs in the order in which they were accepted. -/
  alone : workers = 1 → History.all y.finished <+: h.accepted
  crew : y.pool.held.length ≤ workers
  room : y.pool.pending ≤ capacity

/-- What holds of the jobs of a pool that was shut down, in the yard `last`, after the moves `earlier`. -/
structure WoundUp (last : Yard) (earlier h : History Stage) (y : Yard) : Prop where
  /-- No job was started any more. -/
  unstarted : h.started = earlier.started
  /-- The jobs that waited were dropped, and only these. -/
  dropped : h.dropped = last.pool.backlog
  /-- What was held then is held or has finished, and nothing else. -/
  kept : (y.pool.held ++ y.finished).Perm (last.pool.held ++ last.finished)
  /-- A job that is held can finish if its gate is open. -/
  finish : ∀ job ∈ y.pool.held, y.ready job → y.step? (.finish job) = some (y.finish job)
  /-- When no worker can make a step, only jobs are held whose gate is closed. -/
  idle : y.work? = none → ∀ job ∈ y.pool.held, y.ready job = false
  /-- A job that is held finishes when its gate is opened. -/
  unlocked : ∀ job ∈ y.pool.held, ∃ z, y.perform (.unlock job.id) = .ok z ∧ job ∉ z.pool.held ∧
    z.finished.count job = y.pool.held.count job + y.finished.count job

theorem Custody.accounted (custody : Custody workers capacity h y) : Accounted workers capacity h y where
  places := by
    rw [custody.queue, List.append_assoc]
    have waiting : (h.started ++ (y.pool.backlog ++ h.dropped)).Perm
        (y.pool.held ++ y.finished ++ (y.pool.backlog ++ h.dropped)) := custody.hands.append_right _
    have turned : (y.pool.held ++ y.finished ++ y.pool.backlog).Perm
        (y.pool.backlog ++ y.pool.held ++ y.finished) := by
      rw [List.append_assoc y.pool.backlog]
      exact List.perm_append_comm
    rw [← List.append_assoc (y.pool.held ++ y.finished)] at waiting
    exact waiting.trans (turned.append_right h.dropped)
  order := ⟨y.pool.backlog ++ h.dropped, by rw [custody.queue, List.append_assoc]⟩
  hands := custody.hands
  alone := by
    intro one
    refine ⟨y.pool.held ++ (y.pool.backlog ++ h.dropped), ?_⟩
    rw [custody.queue, custody.alone one]
    simp
  crew := custody.crew
  room := custody.room

/-- What follows from the move that shut the pool down. -/
theorem Runs.woundUp (created : create workers capacity = .ok first) {last : Yard}
    {earlier later : History Stage} (opened : last.pool.closed = false)
    (runs : Runs first (later ++ ⟨last, .ask .close⟩ :: earlier) y) :
    WoundUp last earlier (later ++ ⟨last, .ask .close⟩ :: earlier) y := by
  obtain ⟨before, z, made, after⟩ := runs.split
  have undropped : earlier.dropped = [] := by simpa [opened] using (before.custody created).closed
  cases made
  obtain ⟨⟨closed, empty⟩, ⟨unstarted, spared⟩, kept⟩ := after.of_closed rfl rfl
  constructor
  · simp [History.started_append, unstarted, Stage.started?]
  · simp [History.dropped_append, spared, Stage.dropped, undropped]
  · exact kept
  · intro job held ready
    exact if_pos ⟨held, ready⟩
  · intro idle job held
    exact unready_of_idle idle held
  · intro job _
    exact finishes_unlocked closed empty job

/-- In every run of a pool each job that was accepted has its place, jobs are started in the order in
which they were accepted, and a pool that is shut down drops what waits and lets its workers finish what
they hold. -/
theorem custody_of_jobs (crew : 0 < workers) (room : 0 < capacity) :
    ∃ first, create workers capacity = .ok first ∧ ∀ h y, Runs first h y →
      Accounted workers capacity h y ∧
        ∀ later last earlier, h = later ++ ⟨last, .ask .close⟩ :: earlier → last.pool.closed = false →
          WoundUp last earlier h y := by
  have created : create workers capacity = .ok { pool := { workers, capacity } } := by
    simp [create, Pool.create, Nat.ne_of_gt crew, Nat.ne_of_gt room, Except.map]
  refine ⟨_, created, fun h y runs => ⟨(runs.custody created).accounted, ?_⟩⟩
  rintro later last earlier rfl opened
  exact runs.woundUp created opened

/-! ## Carrying out moves -/

/-- Carries out moves, one after the other, if all can be made. -/
def follow (run : History Stage × Yard) : List Move → Option (History Stage × Yard)
  | [] => some run
  | move :: rest => (run.2.step? move).bind fun next => follow (⟨run.2, move⟩ :: run.1, next) rest

theorem runs_of_follow {moves : List Move} {h' : History Stage} {y' : Yard} (runs : Runs first h y)
    (followed : follow (h, y) moves = some (h', y')) : Runs first h' y' := by
  induction moves generalizing h y with
  | nil =>
    cases followed
    exact runs
  | cons move rest ih =>
    obtain ⟨next, made, followed⟩ := Option.bind_eq_some_iff.mp followed
    exact ih (runs.step made) followed

/-- Where some moves lead, and the history on the way; nowhere, if one of them cannot be made. -/
def lead (first : Yard) (moves : List Move) : History Stage × Yard :=
  (follow ([], first) moves).getD ([], first)

theorem runs_lead {moves : List Move} (carried : (follow ([], first) moves).isSome = true) :
    Runs first (lead first moves).1 (lead first moves).2 := by
  obtain ⟨last, followed⟩ := Option.isSome_iff_exists.mp carried
  have led : lead first moves = last := by rw [lead, followed, Option.getD_some]
  rw [led]
  exact runs_of_follow .refl followed

/-! ## A sample run

Two workers take the first two of three jobs, and the pool is shut down while the first waits at its gate.
-/

namespace Sample

/-- Before the pool is shut down. -/
def moves : List Move :=
  [.ask (.submit ⟨"a", .gated⟩), .ask (.submit ⟨"b", .quick⟩), .ask (.submit ⟨"c", .quick⟩), .take, .take,
    .ask (.submit ⟨"c", .named⟩), .finish ⟨"b", .quick⟩]

/-- A new pool. -/
def yard : Yard := { pool := { workers := 2, capacity := 2 } }

/-- What happened before the pool is shut down, and the yard then. -/
def last : History Stage × Yard := lead yard moves

/-- The history of the run. -/
def history : History Stage := ⟨last.2, .ask .close⟩ :: last.1

end Sample

/-- In the sample the third job is dropped, and the first is still held. -/
theorem custody_of_jobs_sample :
    Sample.history.accepted = [⟨"a", .gated⟩, ⟨"b", .quick⟩, ⟨"c", .named⟩] ∧
      Sample.history.dropped = [⟨"c", .named⟩] ∧ Sample.last.2.pool.held = [⟨"a", .gated⟩] ∧
      Accounted 2 2 Sample.history { Sample.last.2 with pool := Sample.last.2.pool.close } ∧
      WoundUp Sample.last.2 Sample.last.1 Sample.history
        { Sample.last.2 with pool := Sample.last.2.pool.close } := by
  obtain ⟨first, created, holds⟩ := custody_of_jobs (show 0 < 2 by decide) (show 0 < 2 by decide)
  cases created
  have before : Runs Sample.yard Sample.last.1 Sample.last.2 := runs_lead (by decide +kernel)
  obtain ⟨accounted, wound⟩ := holds Sample.history _ (before.step rfl)
  exact ⟨by decide +kernel, by decide +kernel, by decide +kernel, accounted,
    wound [] Sample.last.2 Sample.last.1 rfl (by decide +kernel)⟩

end Yard

end Cadence

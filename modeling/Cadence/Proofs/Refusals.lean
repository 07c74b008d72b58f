import Cadence.Proofs.Quiescence

/-!
A pool refuses a job when it is full, and a refusal leaves nothing behind.

Things are asked of a pool one after the other, and each time the workers come to rest, in whatever order
they take and finish (`Yard.Answers`).  At rest a pool that was not shut down refuses a job if and only if
all its workers are blocked and its backlog is full (`Yard.AtRest.refuses_iff`).  When what was refused is
left out, all other answers stay the same (`Yard.Answers.spared`).
-/

namespace Cadence.Yard

variable {y y' z z' u u' first first' : Yard} {h h' : History Stage} {request : Step}
  {move : Move} {workers capacity : Nat}

/-! ## Answers -/

/-- Why something that is asked is refused, if it is. -/
def fault? (y : Yard) (request : Step) : Option Fault :=
  match y.apply request with
  | .ok _ => none
  | .error fault => some fault

/-- Whether something was asked that was refused. -/
def Stage.refused (stage : Stage) : Bool :=
  match stage.move with
  | .ask request => (stage.before.fault? request).isSome
  | .take | .finish _ => false

/-- Something that was asked, and what came of it. -/
structure Answer where
  request : Step
  /-- Why it was refused, if it was. -/
  fault? : Option Fault
  /-- The yard when the workers rest again: the jobs that are blocked, that wait, and that have finished. -/
  after : Yard
  deriving DecidableEq, Repr

/-- Things are asked one after the other, and each time the workers come to rest. -/
inductive Answers (first : Yard) : History Answer → Yard → Prop
  | refl : Answers first [] first
  | step {answers : History Answer} {y u z : Yard} {request : Step} {h : History Stage}
    (before : Answers first answers y) (asked : y.step? (.ask request) = some u) (works : u.Works h z)
    (idle : z.Idle) : Answers first (⟨request, y.fault? request, z⟩ :: answers) z

/-- Two yards hold the same: the same jobs are blocked and wait, the same gates are open, and the same jobs
have finished, in whatever order. -/
structure Alike (y z : Yard) : Prop where
  pool : z.pool = y.pool
  opened : z.opened = y.opened
  finished : z.finished.Perm y.finished

/-- Two answers to the same question are the same. -/
structure Answer.Same (a b : Answer) : Prop where
  request : b.request = a.request
  fault? : b.fault? = a.fault?
  after : a.after.Alike b.after

theorem Alike.refl (y : Yard) : y.Alike y := ⟨rfl, rfl, .refl _⟩

theorem fault?_submit (y : Yard) (job : Job) : y.fault? (.submit job) =
    if y.pool.closed then some .shuttingDown
    else if y.pool.capacity ≤ y.pool.pending then some (.backlogFull y.pool.capacity) else none := by
  by_cases closed : y.pool.closed = true
  · simp [fault?, apply, Pool.submit, closed, Except.map]
  · by_cases full : y.pool.capacity ≤ y.pool.pending <;>
      simp [fault?, apply, Pool.submit, closed, full, Except.map]

/-- What is refused leaves everything as it was. -/
theorem eq_of_fault (refused : y.fault? request ≠ none) (asked : y.step? (.ask request) = some z) :
    z = y := by
  unfold fault? at refused
  cases applied : y.apply request with
  | ok u => simp [applied] at refused
  | error fault =>
    simp only [step?, applied, Option.some.injEq] at asked
    exact asked.symm

/-! ## At rest -/

/-- The workers of a pool that is at rest hold one job each at the most, all blocked, and none is free if
something waits. -/
structure AtRest (workers capacity : Nat) (y : Yard) : Prop where
  sizes : y.pool.workers = workers ∧ y.pool.capacity = capacity
  manned : y.Manned
  room : y.pool.pending ≤ capacity
  idle : y.Idle

namespace AtRest

variable (rest : AtRest workers capacity y)
include rest

theorem unready {job : Job} (held : job ∈ y.pool.held) : y.ready job = false := by
  rw [(Progress.refl rest.manned).held_of_idle rest.idle] at held
  simpa using (List.mem_filter.mp held).2

theorem full_of_waits (waits : 0 < y.pool.pending) : y.pool.held.length = workers := by
  rw [← rest.sizes.1]
  exact (Progress.refl rest.manned).full_of_idle rest.idle (List.ne_nil_of_length_pos waits)

/-- A pool that was not shut down refuses a job if and only if all its workers are blocked and its backlog is
full. -/
theorem refuses_iff (room : 0 < capacity) (opened : y.pool.closed = false) (job : Job) (fault : Fault) :
    y.fault? (.submit job) = some fault ↔ fault = .backlogFull capacity ∧
      y.pool.held.length = workers ∧ (∀ job ∈ y.pool.held, y.ready job = false) ∧
        y.pool.pending = capacity := by
  rw [fault?_submit, opened, rest.sizes.2, if_neg Bool.false_ne_true]
  constructor
  · intro refused
    split at refused
    · rename_i full
      cases refused
      have filled : y.pool.pending = capacity := Nat.le_antisymm rest.room full
      exact ⟨rfl, rest.full_of_waits (by omega), fun job held => rest.unready held, filled⟩
    · cases refused
  · rintro ⟨rfl, -, -, full⟩
    rw [if_pos (Nat.le_of_eq full.symm)]

/-- Workers that rest make no step. -/
theorem eq_of_works (works : y.Works h z) : z = y := by
  obtain ⟨runs, only⟩ := works
  induction runs with
  | refl => rfl
  | step before made ih =>
    obtain ⟨work, only⟩ := List.forall_mem_cons.mp only
    rw [ih only, rest.idle _ work] at made
    cases made

end AtRest

/-! ## Steps -/

theorem Manned.step (manned : y.Manned) (made : y.step? move = some z) : z.Manned := by
  obtain ⟨crew, shut⟩ := manned
  cases makes made with
  | submitted opened room =>
    refine ⟨crew, fun closed => ?_⟩
    rw [opened] at closed
    cases closed
  | refused => exact ⟨crew, shut⟩
  | unlocked => exact ⟨crew, shut⟩
  | closed => exact ⟨crew, fun _ => rfl⟩
  | taken front free opened =>
    refine ⟨by simpa [Nat.succ_le_iff] using free, fun closed => ?_⟩
    rw [opened] at closed
    cases closed
  | finished held ready => exact ⟨Nat.le_trans List.length_erase_le crew, shut⟩

/-- Something that is asked leaves the sizes of a pool, and its backlog within its room. -/
theorem sizes_step (made : y.step? move = some z) :
    (z.pool.workers = y.pool.workers ∧ z.pool.capacity = y.pool.capacity) ∧
      (y.pool.pending ≤ y.pool.capacity → z.pool.pending ≤ z.pool.capacity) := by
  cases makes made with
  | submitted opened room =>
    refine ⟨⟨rfl, rfl⟩, fun _ => ?_⟩
    simpa [Pool.pending, Nat.succ_le_iff] using room
  | refused => exact ⟨⟨rfl, rfl⟩, id⟩
  | unlocked => exact ⟨⟨rfl, rfl⟩, id⟩
  | closed => exact ⟨⟨rfl, rfl⟩, fun _ => Nat.zero_le _⟩
  | @taken job rest front free opened =>
    refine ⟨⟨rfl, rfl⟩, fun fits => ?_⟩
    simp only [Pool.pending, front, List.length_cons] at fits ⊢
    omega
  | finished held ready => exact ⟨⟨rfl, rfl⟩, id⟩

theorem Runs.manned (manned : y.Manned) (runs : Runs y h z) : z.Manned := by
  induction runs with
  | refl => exact manned
  | step before made ih => exact ih.step made

theorem Runs.sizes (runs : Runs y h z) :
    (z.pool.workers = y.pool.workers ∧ z.pool.capacity = y.pool.capacity) ∧
      (y.pool.pending ≤ y.pool.capacity → z.pool.pending ≤ z.pool.capacity) := by
  induction runs with
  | refl => exact ⟨⟨rfl, rfl⟩, id⟩
  | step before made ih =>
    obtain ⟨same, fits⟩ := sizes_step made
    exact ⟨⟨same.1.trans ih.1.1, same.2.trans ih.1.2⟩, fits ∘ ih.2⟩

/-- After something was asked, workers that have come to rest are at rest. -/
theorem AtRest.step (rest : AtRest workers capacity y) (asked : y.step? (.ask request) = some u)
    (works : u.Works h z) (idle : z.Idle) : AtRest workers capacity z := by
  obtain ⟨same, fits⟩ := sizes_step asked
  obtain ⟨same', fits'⟩ := works.1.sizes
  obtain ⟨crew, capacity⟩ := rest.sizes
  refine ⟨⟨?_, ?_⟩, (rest.manned.step asked |> works.1.manned), ?_, idle⟩
  · rw [same'.1, same.1, crew]
  · rw [same'.2, same.2, capacity]
  · have room := fits' (fits (capacity ▸ rest.room))
    rwa [same'.2, same.2, capacity] at room

theorem Answers.atRest {answers : History Answer} (rest : AtRest workers capacity first)
    (served : Answers first answers y) : AtRest workers capacity y := by
  induction served with
  | refl => exact rest
  | step before asked works idle ih => exact ih.step asked works idle

/-! ## Two yards that hold the same -/

/-- What is asked of two yards that hold the same comes to the same. -/
theorem Alike.asks (alike : y.Alike y') (asked : y.step? (.ask request) = some u)
    (asked' : y'.step? (.ask request) = some u') : y'.fault? request = y.fault? request ∧ u.Alike u' := by
  obtain ⟨pool, opened, finished⟩ := alike
  cases request with
  | submit job =>
    refine ⟨by rw [fault?_submit, fault?_submit, pool], ?_⟩
    cases submitted : y.pool.submit job with
    | ok p =>
      simp only [step?, apply, pool, submitted, Except.map, Option.some.injEq] at asked asked'
      subst asked asked'
      exact ⟨rfl, opened, finished⟩
    | error fault =>
      simp only [step?, apply, pool, submitted, Except.map, Option.some.injEq] at asked asked'
      subst asked asked'
      exact ⟨pool, opened, finished⟩
  | unlock id =>
    cases asked
    cases asked'
    exact ⟨rfl, pool, congrArg (id :: ·) opened, finished⟩
  | close =>
    cases asked
    cases asked'
    exact ⟨rfl, congrArg Pool.close pool, opened, finished⟩

theorem Alike.ready (alike : y.Alike y') : y'.ready = y.ready := by
  unfold Yard.ready
  rw [alike.opened]

/-- A backlog is served in the same way in yards that hold the same. -/
theorem Alike.served (alike : y.Alike y') {taken rest : List Job} (served : y'.Served taken rest) :
    y.Served taken rest := by
  obtain ⟨front, room, full⟩ := served
  rw [alike.pool] at front room full
  rw [gated_congr alike.opened] at room full
  exact ⟨front, room, full⟩

/-- Workers of yards that hold the same come to rest in yards that hold the same. -/
theorem Alike.rests (alike : u.Alike u') (manned : u.Manned) (works : u.Works h z) (idle : z.Idle)
    (works' : u'.Works h' z') (idle' : z'.Idle) : z.Alike z' := by
  have manned' : u'.Manned := by
    obtain ⟨crew, shut⟩ := manned
    constructor
    · rw [alike.pool]
      exact crew
    · rw [alike.pool]
      exact shut
  have progress := works.progress manned
  have progress' := works'.progress manned'
  obtain ⟨taken, left⟩ := (progress.served idle).unique (alike.served (progress'.served idle'))
  have rested := progress.rested idle
  have rested' := progress'.rested idle'
  rw [← taken, ← left] at rested'
  constructor
  · rw [rested.pool, rested'.pool, alike.pool, gated_congr alike.opened]
  · rw [rested.opened, rested'.opened, alike.opened]
  · have parts := rested'.finished
    rw [alike.pool, alike.ready] at parts
    exact parts.trans ((alike.finished.append_left _).trans rested.finished.symm)

/-! ## Without what was refused -/

/-- When what was refused is left out, all other answers are the same, however the workers interleave. -/
theorem Answers.spared {answers others : History Answer} (rest : AtRest workers capacity first)
    (served : Answers first answers y) (others_served : Answers first others y')
    (asked : others.map (·.request) = (answers.filter (·.fault?.isNone)).map (·.request)) :
    y.Alike y' ∧ (answers.filter (·.fault?.isNone)).Forall₂ Answer.Same others := by
  induction served generalizing others y' with
  | refl =>
    obtain rfl : others = [] := by simpa using asked
    cases others_served
    exact ⟨.refl _, .nil⟩
  | @step answers y u z request h before made works idle ih =>
    have rests := before.atRest rest
    cases refused : y.fault? request with
    | some fault =>
      -- nothing happens, and the answer is left out
      have same : z = y := by
        obtain rfl := eq_of_fault (by simp [refused]) made
        exact rests.eq_of_works works
      rw [List.filter_cons_of_neg (by simp [refused])] at asked ⊢
      exact same ▸ ih others_served asked
    | none =>
      rw [List.filter_cons_of_pos (by simp [refused]), List.map_cons] at asked
      rw [List.filter_cons_of_pos (by simp)]
      cases others_served with
      | refl => simp at asked
      | @step others y₁ u₁ z₁ request₁ h₁ before₁ made₁ works₁ idle₁ =>
        rw [List.map_cons] at asked
        obtain ⟨same, earlier⟩ := List.cons.inj asked
        obtain rfl : request₁ = request := same
        obtain ⟨alike, all⟩ := ih before₁ earlier
        obtain ⟨fault, alike⟩ := alike.asks made made₁
        have alike := alike.rests (rests.manned.step made) works idle works₁ idle₁
        exact ⟨alike, .cons ⟨rfl, fault.trans refused, alike⟩ all⟩

/-- Between any two steps of the workers, what is refused can be left out as well. -/
theorem Runs.spared (runs : Runs first h y) :
    Runs first (h.filter fun stage => stage.refused = false) y := by
  induction runs with
  | refl => exact .refl
  | @step h y z move before made ih =>
    by_cases kept : Stage.refused ⟨y, move⟩ = false
    · rw [List.filter_cons_of_pos (by simpa using kept)]
      exact ih.step made
    · rw [List.filter_cons_of_neg (by simpa using kept)]
      cases move with
      | ask request =>
        obtain rfl := eq_of_fault (by simpa [Stage.refused] using kept) made
        exact ih
      | take => exact absurd rfl kept
      | finish job => exact absurd rfl kept

/-! ## Filling a pool -/

/-- A pool at rest with jobs that are all blocked or to be blocked. -/
structure Stowed (workers capacity : Nat) (opened : List String) (jobs : Nat) (y : Yard) : Prop where
  rest : AtRest workers capacity y
  running : y.pool.closed = false
  opened : y.opened = opened
  unready : ∀ job ∈ y.pool.held ++ y.pool.backlog, y.ready job = false
  total : y.pool.held.length + y.pool.pending = min jobs (workers + capacity)

namespace Stowed

variable {opened : List String} {jobs : Nat} (stowed : Stowed workers capacity opened jobs y)
include stowed

/-- There is room in the backlog as long as there are fewer jobs than places. -/
theorem pending_lt_iff (room : 0 < capacity) : y.pool.pending < capacity ↔ jobs < workers + capacity := by
  have total := stowed.total
  have fits := stowed.rest.room
  have full := stowed.rest.full_of_waits
  have crew := stowed.rest.manned.crew
  rw [stowed.rest.sizes.1] at crew
  by_cases waits : 0 < y.pool.pending
  · have busy := full waits
    omega
  · omega

theorem accepts_iff (room : 0 < capacity) (job : Job) :
    y.fault? (.submit job) = none ↔ jobs < workers + capacity := by
  rw [← stowed.pending_lt_iff room, fault?_submit, stowed.running, if_neg Bool.false_ne_true,
    stowed.rest.sizes.2]
  split <;> simp <;> omega

/-- One more job that blocks is taken in, unless there is no place for it. -/
theorem step (room : 0 < capacity) {job : Job} (gated : job.kind = .gated) (locked : job.id ∉ opened)
    (asked : y.step? (.ask (.submit job)) = some u) (works : u.Works h z) (idle : z.Idle) :
    Stowed workers capacity opened (jobs + 1) z := by
  have total := stowed.total
  have accepts := stowed.accepts_iff room job
  have rest := stowed.rest.step asked works idle
  cases makes asked with
  | refused refused =>
    have full : ¬ jobs < workers + capacity := by
      rw [← accepts]
      simp [fault?, apply, refused, Except.map]
    obtain rfl := stowed.rest.eq_of_works works
    exact ⟨rest, stowed.running, stowed.opened, stowed.unready, by omega⟩
  | submitted running fits =>
    have few : jobs < workers + capacity := (stowed.pending_lt_iff room).mp (stowed.rest.sizes.2 ▸ fits)
    have manned := stowed.rest.manned.step asked
    have progress := works.progress manned
    have rested := progress.rested idle
    have unready : ∀ other ∈ y.pool.held ++ (y.pool.backlog ++ [job]), y.ready other = false := by
      intro other among
      rcases List.mem_append.mp (List.append_assoc .. ▸ among) with old | new
      · exact stowed.unready other old
      · obtain rfl := List.mem_singleton.mp new
        simp [ready, gated, stowed.opened, locked]
    have same : ∀ other, z.ready other = y.ready other := by
      intro other
      rw [ready, ready, rested.opened]
    have queue := progress.queue
    simp only at queue
    have held : z.pool.held = y.pool.held ++ h.started := by
      rw [rested.pool]
      refine gated_eq_self fun other among => unready other ?_
      rw [queue, ← List.append_assoc]
      exact List.mem_append_left _ among
    have parts : z.pool.held ++ z.pool.backlog = y.pool.held ++ (y.pool.backlog ++ [job]) := by
      rw [held, queue, List.append_assoc]
    refine ⟨rest, progress.closed.trans running, rested.opened.trans stowed.opened, ?_, ?_⟩
    · intro other among
      rw [same]
      exact unready other (parts ▸ among)
    · have count := congrArg List.length parts
      simp only [List.length_append, List.length_singleton, Pool.pending] at count total ⊢
      omega

end Stowed

/-- A job is submitted that is going to wait at its gate. -/
def Step.Blocks (y : Yard) : Step → Prop
  | .submit job => job.kind = .gated ∧ job.id ∉ y.opened
  | .unlock _ | .close => False

/-- From a pool with nothing to do on, jobs that block are taken in until workers and backlog are full. -/
theorem Answers.stowed {answers : History Answer} (rest : AtRest workers capacity y) (room : 0 < capacity)
    (running : y.pool.closed = false) (free : y.pool.held = []) (empty : y.pool.backlog = [])
    (served : Answers y answers z) (blocks : ∀ a ∈ answers, a.request.Blocks y) :
    Stowed workers capacity y.opened answers.length z ∧
      ∀ n a, answers.all[n]? = some a → (a.fault? = none ↔ n < workers + capacity) := by
  induction served with
  | refl =>
    have stowed : Stowed workers capacity y.opened 0 y :=
      ⟨rest, running, rfl, by simp [free, empty], by simp [free, empty, Pool.pending]⟩
    exact ⟨stowed, by simp [History.all]⟩
  | @step answers y₁ u z request h before asked works idle ih =>
    obtain ⟨blocking, earlier⟩ := List.forall_mem_cons.mp blocks
    obtain ⟨stowed, taken⟩ := ih earlier
    cases request with
    | unlock id | close => exact blocking.elim
    | submit job =>
      refine ⟨stowed.step room blocking.1 blocking.2 asked works idle, ?_⟩
      intro n a found
      have length : answers.all.length = answers.length := List.length_reverse
      have all : History.all (⟨.submit job, y₁.fault? (.submit job), z⟩ :: answers) =
          answers.all ++ [⟨.submit job, y₁.fault? (.submit job), z⟩] := List.reverse_cons
      rw [all] at found
      by_cases old : n < answers.length
      · rw [List.getElem?_append_left (by omega)] at found
        exact taken n a found
      · rw [List.getElem?_append_right (by omega), length] at found
        obtain ⟨within, same⟩ := List.getElem?_eq_some_iff.mp found
        simp only [List.length_singleton] at within
        obtain rfl : n = answers.length := by omega
        obtain rfl : _ = a := by simpa using same
        exact stowed.accepts_iff room job

/-! ## Asking the pool that is executed -/

/-- One more thing is asked; the workers settle. -/
def serve (request : Step) (run : History Answer × Yard) : History Answer × Yard :=
  let after := (run.2.perform request).toOption.getD run.2
  (⟨request, run.2.fault? request, after⟩ :: run.1, after)

/-- Things are asked in turn, the last of them first in the list. -/
def serveAll (first : Yard) (requests : History Step) : History Answer × Yard :=
  requests.foldr serve ([], first)

theorem Answers.serve {run : History Answer × Yard} (served : Answers first run.1 run.2) (idle : run.2.Idle)
    (request : Step) :
    Answers first (serve request run).1 (serve request run).2 ∧ (serve request run).2.Idle := by
  cases applied : run.2.apply request with
  | ok u =>
    obtain ⟨h, works⟩ := works_settle u
    have after : (run.2.perform request).toOption.getD run.2 = u.settle := by
      simp [perform, applied, Except.map, Except.toOption]
    have asked : run.2.step? (.ask request) = some u := by simp [step?, applied]
    simp only [Yard.serve, after]
    exact ⟨served.step asked works (idle_settle u), idle_settle u⟩
  | error fault =>
    have after : (run.2.perform request).toOption.getD run.2 = run.2 := by
      simp [perform, applied, Except.map, Except.toOption]
    have asked : run.2.step? (.ask request) = some run.2 := by simp [step?, applied]
    simp only [Yard.serve, after]
    exact ⟨served.step asked .refl idle, idle⟩

theorem answers_serveAll (idle : first.Idle) (requests : History Step) :
    (Answers first (serveAll first requests).1 (serveAll first requests).2 ∧
      (serveAll first requests).2.Idle) ∧ (serveAll first requests).1.map (·.request) = requests := by
  induction requests with
  | nil => exact ⟨⟨.refl, idle⟩, rfl⟩
  | cons request earlier ih => exact ⟨ih.1.1.serve ih.1.2 request, congrArg (request :: ·) ih.2⟩

/-! ## Pools -/

/-- How a pool at rest answers what is asked of it. -/
structure Exacting (workers capacity : Nat) (y : Yard) : Prop where
  /-- A pool that was not shut down refuses a job if and only if all its workers are blocked and its backlog
  is full, and says so. -/
  refuses : y.pool.closed = false → ∀ job fault, y.fault? (.submit job) = some fault ↔
    fault = .backlogFull capacity ∧ y.pool.held.length = workers ∧
      (∀ job ∈ y.pool.held, y.ready job = false) ∧ y.pool.pending = capacity
  /-- If it has nothing to do, then of jobs that block exactly the first are accepted, as many as there are
  workers and places. -/
  fills : y.pool.closed = false → y.pool.held = [] → y.pool.backlog = [] → ∀ answers z,
    Answers y answers z → (∀ a ∈ answers, a.request.Blocks y) →
      ∀ n a, answers.all[n]? = some a → (a.fault? = none ↔ n < workers + capacity)
  /-- What was refused can be left out. -/
  spares : ∀ answers z, Answers y answers z → ∃ others u, Answers y others u ∧
    others.map (·.request) = (answers.filter (·.fault?.isNone)).map (·.request)
  /-- All other answers are then the same, and so is the yard in the end, however the workers interleave. -/
  same : ∀ answers z others u, Answers y answers z → Answers y others u →
    others.map (·.request) = (answers.filter (·.fault?.isNone)).map (·.request) →
      (answers.filter (·.fault?.isNone)).Forall₂ Answer.Same others ∧ z.Alike u

/-- A pool refuses a job exactly when it is full, and a refusal leaves nothing behind: not in a run in which
the workers are always left to rest, and not between any two steps of theirs. -/
theorem refuses_exactly (crew : 0 < workers) (room : 0 < capacity) :
    ∃ first, create workers capacity = .ok first ∧ ∀ h y, Runs first h y →
      (Runs first (h.filter fun stage => stage.refused = false) y) ∧
        (y.Idle → Exacting workers capacity y) := by
  have created : create workers capacity = .ok { pool := { workers, capacity } } := by
    simp [create, Pool.create, Nat.ne_of_gt crew, Nat.ne_of_gt room, Except.map]
  refine ⟨_, created, fun h y runs => ⟨runs.spared, fun idle => ?_⟩⟩
  have custody := runs.custody created
  have rest : AtRest workers capacity y := ⟨custody.sizes, custody.manned, custody.room, idle⟩
  constructor
  · intro opened job fault
    exact rest.refuses_iff room opened job fault
  · intro running free empty answers z served blocks
    exact (served.stowed rest room running free empty blocks).2
  · intro answers z served
    obtain ⟨⟨others, -⟩, asked⟩ := answers_serveAll idle ((answers.filter (·.fault?.isNone)).map (·.request))
    exact ⟨_, _, others, asked⟩
  · intro answers z others u served others_served asked
    exact (served.spared rest others_served asked).symm

namespace Sample

/-- Three jobs that block are submitted, of which one is released in the end. -/
def requests : History Step :=
  [.unlock "a", .submit ⟨"c", .gated⟩, .submit ⟨"b", .gated⟩, .submit ⟨"a", .gated⟩]

/-- A pool with one worker and one place. -/
def booth : Yard := { pool := { workers := 1, capacity := 1 } }

end Sample

/-- In the sample the third job is refused; left out, it is not missed. -/
theorem refuses_exactly_sample :
    (serveAll Sample.booth Sample.requests).1.map (·.fault?) = [none, some (.backlogFull 1), none, none] ∧
      (serveAll Sample.booth Sample.requests).2.Alike
        (serveAll Sample.booth [.unlock "a", .submit ⟨"b", .gated⟩, .submit ⟨"a", .gated⟩]).2 := by
  obtain ⟨first, created, holds⟩ := refuses_exactly (show 0 < 1 by decide) (show 0 < 1 by decide)
  cases created
  have idle : Sample.booth.Idle := by
    have rests : Sample.booth = Sample.booth.settle := by decide +kernel
    exact rests ▸ idle_settle _
  have exacting := (holds [] Sample.booth .refl).2 idle
  have all := (answers_serveAll idle Sample.requests).1.1
  have some := (answers_serveAll idle [.unlock "a", .submit ⟨"b", .gated⟩, .submit ⟨"a", .gated⟩]).1.1
  exact ⟨by decide +kernel, (exacting.same _ _ _ _ all some (by decide +kernel)).2⟩

end Cadence.Yard

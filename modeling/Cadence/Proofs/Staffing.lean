import Cadence.Proofs.WorkerSteps

/-!
What the workers hold, and when they have settled.

Workers have settled when what they hold is blocked, and a job waits only if all of them hold something
(`Dispatcher.Settled`); this is when none of them can make a step (`Dispatcher.settled_of_work`).  In
every moment that is reached no worker holds two runs (`Moment.Reaches.staffed`).
-/

namespace Cadence

namespace Scheduler

/-- The pool has the workers of the scheduler, and none of them holds two runs. -/
structure Staffed (s : Scheduler) : Prop where
  workers : ∀ p, s.pool = some p → p.workers = s.workers
  held : ∀ p, s.pool = some p → p.held.length ≤ p.workers

end Scheduler

namespace Dispatcher

/-- No worker can make a step: what they hold is blocked, and a job waits only if all of them hold
something. -/
structure Settled (s : Dispatcher) : Prop where
  blocked : ∀ run ∈ s.held, s.ready run = false
  full : s.waiting ≠ [] → ∀ p, s.scheduler.pool = some p → p.workers ≤ p.held.length

/-- Every worker holds a run that is blocked. -/
structure Stuck (s : Dispatcher) : Prop where
  blocked : ∀ run ∈ s.held, s.ready run = false
  full : ∀ p, s.scheduler.pool = some p → p.workers ≤ p.held.length

theorem Settled.stuck {s : Dispatcher} (settled : s.Settled) {name : String}
    (waits : name ∈ s.waiting) : s.Stuck :=
  ⟨settled.blocked, settled.full (List.ne_nil_of_mem waits)⟩

theorem Offers.waits {s : Dispatcher} {name : String} {p : Pool String Run}
    (offers : s.Offers name p) : name ∈ s.waiting := by
  simp only [waiting, offers.present, Option.map_some, Option.getD_some]
  rw [offers.front]
  exact List.mem_cons_self

/-- A stuck worker can do nothing. -/
theorem Stuck.not_toils {s : Dispatcher} (stuck : s.Stuck) {move : Move} {l : Labour} :
    ¬ s.Toils move l := by
  rintro (offers | ⟨held, ready⟩)
  · have full := stuck.full _ offers.present
    have free := offers.free
    omega
  · rw [stuck.blocked _ held] at ready
    cases ready

theorem Settled.not_toils {s : Dispatcher} (settled : s.Settled) {move : Move} {l : Labour} :
    ¬ s.Toils move l := by
  intro toils
  cases toils with
  | take offers => exact (settled.stuck offers.waits).not_toils (.take offers)
  | finish held ready =>
    rw [settled.blocked _ held] at ready
    cases ready

/-- The workers have settled when they can make no step. -/
theorem settled_of_work {s : Dispatcher} (running : ∀ p, s.scheduler.pool = some p → p.closed = false)
    (rests : s.work? = none) : s.Settled := by
  obtain ⟨unfinished, untaken⟩ := Option.or_eq_none_iff.mp rests
  constructor
  · intro run held
    have none := List.find?_eq_none.mp (Option.map_eq_none_iff.mp unfinished) run held
    simpa using none
  · intro waits p present
    by_contra free
    have ⟨name, rest, front⟩ := List.exists_cons_of_ne_nil
      (show p.backlog ≠ [] by simpa [waiting, present] using waits)
    have offers : s.Offers name p := by
      constructor
      · exact present
      · rw [front]
        rfl
      · omega
      · exact running p present
    rw [take?_eq_some_iff.mpr ⟨name, p, offers, rfl⟩] at untaken
    cases untaken

theorem work?_of_settled {s : Dispatcher} (settled : s.Settled) : s.work? = none := by
  unfold work? finish?
  rw [Option.or_eq_none_iff]
  constructor
  · rw [Option.map_eq_none_iff, List.find?_eq_none]
    intro run held ready
    rw [settled.blocked run held] at ready
    cases ready
  · by_contra some
    obtain ⟨t, taken⟩ := Option.ne_none_iff_exists'.mp some
    obtain ⟨name, p, offers, _⟩ := take?_eq_some_iff.mp taken
    exact settled.not_toils (.take offers)

/-- What a worker can do leaves each worker with one run at the most. -/
theorem Toils.staffed {s : Dispatcher} {move : Move} {l : Labour} (toils : s.Toils move l)
    (staffed : s.scheduler.Staffed) : (s.does l).scheduler.Staffed := by
  obtain ⟨p, present, _⟩ := toils.proper
  have pool : (s.does l).scheduler.pool = some (l.pool p) := by simp [does, present]
  have kept : (l.pool p).workers = p.workers ∧ (l.pool p).held.length ≤ p.workers := by
    have before := staffed.held p present
    cases toils with
    | @take name q offers =>
      have same : q = p := Option.some.inj (offers.present.symm.trans present)
      subst same
      refine ⟨rfl, ?_⟩
      have free := offers.free
      simp only [entering, List.length_append, List.length_singleton]
      omega
    | @finish run held ready =>
      have fewer : (p.held.erase run).length ≤ p.held.length := List.length_erase_le
      exact ⟨rfl, fewer.trans before⟩
  constructor
  · intro q present'
    have same : l.pool p = q := Option.some.inj (pool.symm.trans present')
    rw [← same, kept.1]
    exact staffed.workers p present
  · intro q present'
    have same : l.pool p = q := Option.some.inj (pool.symm.trans present')
    rw [← same, kept.1]
    exact kept.2

/-- A chore does not help workers that are stuck. -/
theorem Spares.stuck {s u : Dispatcher} {c : Chore} {p : Pool String Run} (spares : s.Spares c p u)
    (present : s.scheduler.pool = some p) (stuck : s.Stuck) : u.Stuck := by
  constructor
  · intro run held
    rw [spares.held present] at held
    rw [ready_congr spares.clock (spares.gear run.name)]
    exact stuck.blocked run held
  · intro q present'
    obtain ⟨more, pool, _⟩ := spares.pool
    have same := Option.some.inj (pool.symm.trans present')
    rw [← same]
    exact stuck.full p present

/-- Making ready for a tick may make a pool, in which nothing waits and nothing is held. -/
theorem pool_opened (s : Dispatcher) : s.opened.scheduler.pool = s.scheduler.pool ∨
    s.scheduler.pool = none ∧ s.opened.scheduler.pool =
      some { workers := s.scheduler.workers, capacity := s.scheduler.backlogCapacity } := by
  unfold opened
  split
  · rw [scheduler_start, Scheduler.start, Scheduler.poolOrNew]
    cases s.scheduler.pool with
    | none => exact .inr ⟨rfl, rfl⟩
    | some p => exact .inl rfl
  · exact .inl rfl

@[simp] theorem clock_opened (s : Dispatcher) : s.opened.clock = s.clock := by
  unfold opened start noteWhen
  repeat' split
  all_goals rfl

@[simp] theorem workerLog_opened (s : Dispatcher) : s.opened.workerLog = s.workerLog := by
  unfold opened start noteWhen
  repeat' split
  all_goals rfl

@[simp] theorem entry?_opened (s : Dispatcher) (name : String) :
    s.opened.scheduler.entry? name = s.scheduler.entry? name := by
  unfold opened
  split
  · rw [scheduler_start]
    rfl
  · rfl

@[simp] theorem held_opened (s : Dispatcher) : s.opened.held = s.held := by
  unfold held
  rcases s.pool_opened with same | ⟨none, made⟩
  · rw [same]
  · rw [none, made]
    rfl

@[simp] theorem waiting_opened (s : Dispatcher) : s.opened.waiting = s.waiting := by
  unfold waiting
  rcases s.pool_opened with same | ⟨none, made⟩
  · rw [same]
  · rw [none, made]
    rfl

theorem gear_opened (s : Dispatcher) (name : String) : s.opened.gear name = s.gear name := by
  simp [gear]

/-- Making ready for a tick gives the workers nothing to do. -/
theorem Settled.opened {s : Dispatcher} (settled : s.Settled) : s.opened.Settled := by
  constructor
  · intro run held
    rw [held_opened] at held
    rw [ready_congr s.clock_opened (s.gear_opened run.name)]
    exact settled.blocked run held
  · intro waits
    rw [waiting_opened] at waits
    rcases s.pool_opened with same | ⟨none, _⟩
    · rw [same]
      exact settled.full waits
    · simp [waiting, none] at waits

/-- Controls, permits and the passing of time leave the pool alone. -/
theorem pool_act {s t : Dispatcher} {action : Action} (done : s.act action = .ok t) :
    t.scheduler.pool = s.scheduler.pool ∧ t.scheduler.workers = s.scheduler.workers := by
  cases action <;> cases done <;>
    simp [setMode, setEnabled, setContention, setHealth, permit, advance, Scheduler.setContention,
      Scheduler.modifyTask, Scheduler.modifyEntry]

/-- No chore changes the number of workers. -/
theorem workers_perform {s t : Dispatcher} {now : Instant} {c : Chore} {result : Chore.Result}
    (done : s.perform now c = (result, t)) : t.scheduler.workers = s.scheduler.workers := by
  cases c with
  | consider target =>
    have considers := considers done
    generalize t.scheduler = scheduler at considers
    cases considers <;> rfl
  | record event target =>
    cases done
    rfl
  | note line =>
    cases done
    rfl
  | act action =>
    simp only [perform] at done
    split at done
    · rename_i acted
      cases done
      exact (pool_act acted).2
    · cases done
      rfl

/-- There are no more unfinished jobs than tasks. -/
theorem outstanding_length_le {s : Dispatcher} (sound : s.scheduler.Sound) :
    s.waiting.length + s.held.length ≤ s.scheduler.entries.length := by
  have registered : s.scheduler.outstanding ⊆ s.scheduler.names := by
    intro name job
    exact Scheduler.registered_of_busy (sound.busy_of_job job)
  have fits := (List.subperm_of_subset (outstanding_nodup sound) registered).length_le
  rw [outstanding_eq] at fits
  simpa [Scheduler.names] using fits

/-- If there is a worker for each task, no job waits once the workers have settled. -/
theorem Settled.vacant {s : Dispatcher} (settled : s.Settled) (sound : s.scheduler.Sound)
    (staffed : s.scheduler.Staffed) (enough : s.scheduler.entries.length ≤ s.scheduler.workers) :
    s.waiting = [] := by
  by_contra waits
  have some := List.length_pos_of_ne_nil waits
  have fits := outstanding_length_le sound
  cases present : s.scheduler.pool with
  | none => simp [waiting, present] at some
  | some p =>
    have full := settled.full waits p present
    have workers := staffed.workers p present
    have held : s.held = p.held := by simp [held, present]
    rw [held] at fits
    omega

instance (s : Dispatcher) : Decidable s.Settled :=
  decidable_of_iff ((∀ run ∈ s.held, s.ready run = false) ∧
    (s.waiting ≠ [] → ∀ p, s.scheduler.pool = some p → p.workers ≤ p.held.length))
    ⟨fun ⟨blocked, full⟩ => ⟨blocked, full⟩, fun settled => ⟨settled.blocked, settled.full⟩⟩

end Dispatcher

namespace Scheduler

theorem Staffed.congr {s t : Scheduler} (staffed : s.Staffed) (pool : t.pool = s.pool)
    (workers : t.workers = s.workers) : t.Staffed := by
  constructor
  · rw [pool, workers]
    exact staffed.workers
  · rw [pool]
    exact staffed.held

theorem Staffed.start {s : Scheduler} (staffed : s.Staffed) : s.start.Staffed := by
  constructor
  · rintro p ⟨⟩
    unfold poolOrNew
    cases present : s.pool with
    | none => rfl
    | some q => exact staffed.workers q present
  · rintro p ⟨⟩
    unfold poolOrNew
    cases present : s.pool with
    | none => exact Nat.zero_le _
    | some q => exact staffed.held q present

/-- Jobs at the end of the backlog are held by nobody. -/
theorem Staffed.append {s t : Scheduler} (staffed : s.Staffed) {p : Pool String Run}
    (present : s.pool = some p) {more : List String}
    (pool : t.pool = some { p with backlog := p.backlog ++ more }) (workers : t.workers = s.workers) :
    t.Staffed := by
  constructor
  · rw [pool, workers]
    rintro q ⟨⟩
    exact staffed.workers p present
  · rw [pool]
    rintro q ⟨⟩
    exact staffed.held p present

end Scheduler

namespace Moment

variable {m m' : Moment} {move : Move}

theorem staffed_step (sound : m.Sound) (staffed : m.dispatcher.scheduler.Staffed)
    (made : m.step? move = some m') : m'.dispatcher.scheduler.Staffed := by
  cases makes made with
  | registered idle unrefused unstarted unregistered => exact staffed.congr rfl rfl
  | refused idle refused => exact staffed
  | started idle =>
    rw [withDispatcher, Dispatcher.scheduler_start]
    exact staffed.start
  | begun idle =>
    rw [beginTick, Dispatcher.opened]
    split
    · rw [Dispatcher.scheduler_start]
      exact staffed.start
    · exact staffed
  | @performed c rest result t left done =>
    by_cases own : ∀ action, c ≠ .act action
    · obtain ⟨p, present⟩ := Option.isSome_iff_exists.mp (sound.started (by simp [left]))
      have spares := Dispatcher.perform_spares present sound.scheduler own done
      obtain ⟨more, pool, _⟩ := spares.pool
      exact staffed.append present pool spares.workers
    · obtain ⟨action, rfl⟩ := not_forall_not.mp own
      simp only [Dispatcher.perform] at done
      split at done
      · rename_i acted
        cases done
        obtain ⟨pool, workers⟩ := Dispatcher.pool_act acted
        exact staffed.congr pool workers
      · cases done
        exact staffed
  | noted idle => exact staffed
  | acted done =>
    obtain ⟨pool, workers⟩ := Dispatcher.pool_act done
    exact staffed.congr pool workers
  | failed => exact staffed
  | hooked => exact staffed
  | taken taken =>
    obtain ⟨name, p, offers, rfl⟩ := Dispatcher.take?_eq_some_iff.mp taken
    exact (Dispatcher.Toils.take offers).staffed staffed
  | finished held ready =>
    rw [withDispatcher, Dispatcher.finish_eq]
    exact (Dispatcher.Toils.finish held ready).staffed staffed

/-- The workers stay as many, and the tasks do not become fewer. -/
theorem crew_step (sound : m.Sound) (made : m.step? move = some m') :
    m'.dispatcher.scheduler.workers = m.dispatcher.scheduler.workers ∧
      m.dispatcher.scheduler.entries.length ≤ m'.dispatcher.scheduler.entries.length := by
  constructor
  · cases makes made with
    | started idle => simp [withDispatcher, Scheduler.start]
    | begun idle =>
      simp only [beginTick, Dispatcher.opened]
      split <;> simp [Scheduler.start]
    | performed left done => exact Dispatcher.workers_perform done
    | acted done => exact (Dispatcher.pool_act done).2
    | taken taken =>
      obtain ⟨name, p, offers, rfl⟩ := Dispatcher.take?_eq_some_iff.mp taken
      rfl
    | _ => rfl
  · rcases layout_cases sound made with same | ⟨new, instant, _, _, enrolled⟩ | started
    · have names := congrArg (fun l => l.1.length) same
      simp only [Scheduler.layout, Scheduler.names, List.length_map] at names
      exact names.ge
    · rw [enrolled]
      simp [Scheduler.enroll]
    · rw [started]
      exact Nat.le_refl _

theorem Reaches.staffed {workers : Nat} {scheduler : Scheduler}
    (created : Scheduler.create workers = .ok scheduler) {allowed : Move → Prop}
    (reached : Reaches allowed (initial scheduler) m) : m.dispatcher.scheduler.Staffed := by
  have none : scheduler.pool = none := by
    obtain ⟨_, rfl⟩ := Scheduler.eq_of_create created
    rfl
  induction reached with
  | refl => exact ⟨by simp [initial, none], by simp [initial, none]⟩
  | step before may made ih => exact staffed_step (before.sound created) ih made

end Moment

end Cadence

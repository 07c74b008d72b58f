import Cadence.Proofs.Reentry
import Cadence.Proofs.Ruling

/-!
What a worker does, and that it may as well be done a little later.

A `Labour` is the work of one step of a worker: it touches one task, the front of the backlog and the
runs that are held, the clock, and the workers' log.  A chore of the control thread that is not about
this task touches other entries, the other log, the end of the backlog and the sink, so that the two
can be done in either order (`Dispatcher.perform_does`).  So can the work of two workers, up to the
order of their lines in the workers' log (`Dispatcher.does_comm`).
-/

namespace Cadence

/-- The work of one step of a worker. -/
structure Labour where
  /-- The task that is worked on. -/
  name : String
  task : Task → Task
  pool : Pool String Run → Pool String Run
  /-- Nanoseconds by which the clock moves on. -/
  time : Int64 := 0
  /-- What is logged, latest first. -/
  lines : History Line := []

namespace Labour

/-- Work that keeps the name and the body of the task, and leaves the end of the backlog to the control
thread. -/
structure Proper (l : Labour) (p : Pool String Run) : Prop where
  keeps : ∀ t, (l.task t).name = t.name
  body : ∀ t, (l.task t).body = t.body
  /-- A job that can be put at the end of the backlog can be put there before the work or after it. -/
  submits : ∀ name, p.closed = false → p.pending < p.capacity →
    (l.pool p).submit name = .ok (l.pool { p with backlog := p.backlog ++ [name] })

end Labour

namespace Dispatcher

/-- Does the work of a step of a worker. -/
def does (s : Dispatcher) (l : Labour) : Dispatcher :=
  { s with
    clock := s.clock.advance l.time
    scheduler := { s.scheduler.modifyTask l.name l.task with pool := s.scheduler.pool.map l.pool }
    workerLog := l.lines ++ s.workerLog }

/-- A worker takes the front job, a job of the task of this name. -/
def entering (s : Dispatcher) (name : String) : Labour where
  name
  task := Task.enter
  pool p := { p with backlog := p.backlog.tail, held := p.held ++ [⟨name, s.clock⟩] }
  time := ((s.scheduler.task? name).map (·.body.work)).getD 0

/-- A worker finishes a run. -/
def finishing (s : Dispatcher) (run : Run) : Labour where
  name := run.name
  task t := t.complete run.began s.clock
  pool p := p.release run
  lines := (((s.scheduler.task? run.name).map Task.complaints).getD []).reverse

/-- The front job of a name can be taken: it waits, and a worker is free. -/
structure Offers (s : Dispatcher) (name : String) (p : Pool String Run) : Prop where
  present : s.scheduler.pool = some p
  front : p.backlog = name :: p.backlog.tail
  free : p.held.length < p.workers
  running : p.closed = false

/-- A worker takes a job if one is offered. -/
theorem take?_eq_some_iff {s t : Dispatcher} :
    s.take? = some t ↔ ∃ name p, s.Offers name p ∧ t = s.does (s.entering name) := by
  constructor
  · intro taken
    simp only [take?, Option.map_eq_some_iff, Option.bind_eq_some_iff] at taken
    obtain ⟨⟨name, after⟩, ⟨p, present, popped⟩, rfl⟩ := taken
    unfold Pool.take? at popped
    split at popped
    · rename_i job rest waiting
      split at popped
      · rename_i may
        cases popped
        refine ⟨name, p, ⟨present, by simp [waiting], may.1, by simpa using may.2⟩, ?_⟩
        simp [does, entering, enter, advance, modifyScheduler, Scheduler.modifyTask,
          Scheduler.modifyEntry, Scheduler.task?, Scheduler.entry?, present, waiting]
      · cases popped
    · cases popped
  · rintro ⟨name, p, offers, rfl⟩
    have popped : p.take? (fun n => (⟨n, s.clock⟩ : Run)) = some (name,
        { p with backlog := p.backlog.tail, held := p.held ++ [⟨name, s.clock⟩] }) := by
      unfold Pool.take?
      rw [offers.front]
      simp [offers.free, offers.running]
    simp [take?, offers.present, popped, does, entering, enter, advance, modifyScheduler,
      Scheduler.modifyTask, Scheduler.modifyEntry, Scheduler.task?, Scheduler.entry?]

theorem finish_eq (s : Dispatcher) (run : Run) : s.finish run = s.does (s.finishing run) := by
  have still : s.clock.advance 0 = s.clock := by simp [Instant.advance]
  simp only [does, finishing, still]
  rfl

theorem Offers.proper {s : Dispatcher} {name : String} {p : Pool String Run}
    (offers : s.Offers name p) : (s.entering name).Proper p := by
  constructor
  · exact fun _ => rfl
  · exact fun _ => rfl
  · intro other opened room
    have shorter : p.backlog.length = p.backlog.tail.length + 1 := by
      rw [offers.front]
      rfl
    have fits : ((s.entering name).pool p).pending < p.capacity := by
      simp only [Pool.pending, entering] at room ⊢
      omega
    rw [Pool.submit_of_room (p := (s.entering name).pool p) opened fits]
    simp only [entering]
    rw [offers.front]
    rfl

theorem proper_finishing (s : Dispatcher) (run : Run) (p : Pool String Run) :
    (s.finishing run).Proper p := by
  constructor
  · exact fun _ => rfl
  · exact fun _ => rfl
  · intro name opened room
    exact Pool.submit_of_room (p := p.release run) opened room name

/-! ## The order of the work and the chores -/

section

variable {s : Dispatcher} {l : Labour} (keeps : ∀ t, (l.task t).name = t.name)
include keeps

/-- Work on a task leaves the entries of the others alone. -/
theorem entry?_does_of_ne {name : String} (different : name ≠ l.name) :
    (s.does l).scheduler.entry? name = s.scheduler.entry? name :=
  Scheduler.entry?_modifyEntry_of_ne _ different fun e => keeps e.task

theorem entry?_does_self : (s.does l).scheduler.entry? l.name =
    (s.scheduler.entry? l.name).map fun e => { e with task := l.task e.task } :=
  Scheduler.entry?_modifyEntry_self _ l.name fun e => keeps e.task

end

/-- Two pieces of work on different entries can be done in either order. -/
theorem modifyEntry_comm (s : Scheduler) {a b : String} (different : a ≠ b) {f g : Entry → Entry}
    (keepsF : ∀ e, (f e).task.name = e.task.name) (keepsG : ∀ e, (g e).task.name = e.task.name) :
    (s.modifyEntry a f).modifyEntry b g = (s.modifyEntry b g).modifyEntry a f := by
  simp only [Scheduler.modifyEntry, List.map_map]
  congr 1
  apply List.map_congr_left
  intro e _
  simp only [Function.comp_apply]
  by_cases first : e.task.name = a
  · simp [first, keepsF, different]
  · by_cases second : e.task.name = b
    · simp [second, keepsG, different.symm]
    · simp [first, second]

/-- A ruling on one task is carried out before the work on another, or after it. -/
theorem carry_does {s : Dispatcher} {l : Labour} {p : Pool String Run} (proper : l.Proper p)
    (present : s.scheduler.pool = some p) (opened : p.closed = false) {name : String}
    (different : name ≠ l.name) (e : Entry) (mode : Mode) (now : Instant)
    (room : e.task.inProgress = false → p.pending < p.capacity) :
    (s.does l).carry name (e.ruling mode now) =
      ((s.carry name (e.ruling mode now)).1, (s.carry name (e.ruling mode now)).2.does l) := by
  have moved := modifyEntry_comm s.scheduler different.symm
    (f := fun e => { e with task := l.task e.task }) (fun e => proper.keeps e.task)
    (e.name_ruling_change mode now)
  have ruled : ∀ pool, ({ s.scheduler.modifyTask l.name l.task with pool } : Scheduler).modifyEntry name
      (e.ruling mode now).change =
      { (s.scheduler.modifyEntry name (e.ruling mode now).change).modifyTask l.name l.task with
        pool } := by
    intro pool
    exact congrArg (fun t : Scheduler => { t with pool }) moved
  unfold carry
  split
  · rename_i starts
    have free := e.free_of_starts mode now starts
    have before : (s.scheduler.modifyEntry name (e.ruling mode now).change).poolOrNew = p := by
      rw [poolOrNew_modifyEntry, Scheduler.poolOrNew, present, Option.getD_some]
    have after : ∀ t : Scheduler, ({ t with pool := some (l.pool p) } : Scheduler).poolOrNew =
        l.pool p := fun _ => rfl
    simp only [submit, Scheduler.submit, does, ruled, present, Option.map_some, before, after,
      Pool.submit_of_room opened (room free), proper.submits name opened (room free), Except.map]
    rfl
  · simp only [does, ruled]
    rfl

/-- A chore of the control thread that is not the evaluation of a task is done before the work on this
task, or after it. -/
theorem perform_does {s : Dispatcher} {l : Labour} {p : Pool String Run} (proper : l.Proper p)
    (present : s.scheduler.pool = some p) (sound : s.scheduler.Sound) {c : Chore}
    (own : ∀ action, c ≠ .act action) (other : c ≠ .consider l.name) (now : Instant) :
    (s.does l).perform now c = ((s.perform now c).1, (s.perform now c).2.does l) := by
  cases c with
  | consider name =>
    have different : name ≠ l.name := fun same => other (congrArg Chore.consider same)
    have entry := entry?_does_of_ne (s := s) proper.keeps different
    simp only [perform, consider_eq, entry]
    cases found : s.scheduler.entry? name with
    | none => rfl
    | some e =>
      exact carry_does proper present (sound.running p present) different e s.scheduler.mode now
        fun free => sound.room found free present
  | record event name => rfl
  | note line => rfl
  | act action => exact absurd rfl (own action)

/-- What is left of a dispatcher without the order in which its workers log. -/
def hushed (s : Dispatcher) : Dispatcher := { s with workerLog := [] }

/-- The work of two workers is done in either order, up to the order of their lines. -/
theorem does_comm {s : Dispatcher} {l k : Labour} {p : Pool String Run} (proper : l.Proper p)
    (proper' : k.Proper p) (present : s.scheduler.pool = some p) (different : l.name ≠ k.name)
    (pools : k.pool (l.pool p) = l.pool (k.pool p)) :
    ((s.does l).does k).hushed = ((s.does k).does l).hushed := by
  have tasks := modifyEntry_comm s.scheduler different
    (f := fun e => { e with task := l.task e.task }) (g := fun e => { e with task := k.task e.task })
    (fun e => proper.keeps e.task) (fun e => proper'.keeps e.task)
  have clocks : (s.clock.advance l.time).advance k.time = (s.clock.advance k.time).advance l.time := by
    simp only [Instant.advance, Instant.mk.injEq]
    rw [Int64.add_assoc, Int64.add_comm l.time, ← Int64.add_assoc]
  have schedulers : ∀ pool, ({ ({ s.scheduler.modifyTask l.name l.task with pool } : Scheduler).modifyTask
      k.name k.task with pool } : Scheduler) = { ({ s.scheduler.modifyTask k.name k.task with pool } :
        Scheduler).modifyTask l.name l.task with pool } :=
    fun pool => congrArg (fun t : Scheduler => { t with pool }) tasks
  have both := schedulers (some (l.pool (k.pool p)))
  simp only [hushed, does, present, Option.map_some, pools, clocks]
  exact congrArg (fun scheduler => ({ s with
    clock := (s.clock.advance k.time).advance l.time, scheduler, workerLog := [] } : Dispatcher)) both

/-! ## What can be done still can -/

/-- The work that a move of a worker is, when it can be made. -/
inductive Toils (s : Dispatcher) : Move → Labour → Prop
  | take {name : String} {p : Pool String Run} (offers : s.Offers name p) :
    s.Toils .take (s.entering name)
  | finish {run : Run} (held : run ∈ s.held) (ready : s.ready run = true) :
    s.Toils (.finish run) (s.finishing run)

theorem Toils.proper {s : Dispatcher} {move : Move} {l : Labour} (toils : s.Toils move l) :
    ∃ p, s.scheduler.pool = some p ∧ l.Proper p := by
  cases toils with
  | @take name p offers => exact ⟨p, offers.present, offers.proper⟩
  | @finish run held ready =>
    obtain ⟨p, present, _⟩ := pool_of_held held
    exact ⟨p, present, s.proper_finishing run p⟩

/-- What a worker needs to know of a task: its name, its body and its permits. -/
def gear (s : Dispatcher) (name : String) : Option (String × Body × Nat) :=
  (s.scheduler.entry? name).map fun e => (e.task.name, e.task.body, e.task.permits)

section

variable {s t : Dispatcher} (clock : t.clock = s.clock)
include clock

theorem entering_congr {name : String} (gear : t.gear name = s.gear name) :
    t.entering name = s.entering name := by
  have work : ∀ u : Dispatcher, (u.scheduler.task? name).map (·.body.work) =
      (u.gear name).map (·.2.1.work) := by
    intro u
    simp [Dispatcher.gear, Scheduler.task?, Function.comp_def]
  simp only [entering, clock, work, gear]

theorem finishing_congr {run : Run} (gear : t.gear run.name = s.gear run.name) :
    t.finishing run = s.finishing run := by
  have lines : (t.scheduler.task? run.name).map Task.complaints =
      (s.scheduler.task? run.name).map Task.complaints := by
    unfold Dispatcher.gear at gear
    unfold Scheduler.task?
    cases after : t.scheduler.entry? run.name <;> cases before : s.scheduler.entry? run.name <;>
      simp_all [Task.complaints]
  simp only [finishing, clock, lines]

theorem ready_congr {run : Run} (gear : t.gear run.name = s.gear run.name) :
    t.ready run = s.ready run := by
  have ready : ∀ u : Dispatcher, u.ready run =
      (u.gear run.name).any fun g => g.2.1.ready run.began u.clock g.2.2 := by
    intro u
    simp [Dispatcher.ready, Dispatcher.gear, Scheduler.task?, Option.any_map]
  rw [ready, ready, clock, gear]

end

/-! ### After a chore -/

section

variable {s u : Dispatcher} {now : Instant} {c : Chore} {result : Chore.Result}

/-- A ruling changes one entry and the log, and puts a task that starts at the end of the backlog. -/
theorem carry_eq {p : Pool String Run} (present : s.scheduler.pool = some p)
    (opened : p.closed = false) (name : String) (e : Entry) (mode : Mode)
    (room : e.task.inProgress = false → p.pending < p.capacity) :
    s.carry name (e.ruling mode now) = ((e.ruling mode now).result, { s with
      scheduler := { s.scheduler.modifyEntry name (e.ruling mode now).change with
        pool := some
          { p with backlog := p.backlog ++ if (e.ruling mode now).starts then [name] else [] } }
      log := (e.ruling mode now).lines ++ s.log }) := by
  have before : (s.scheduler.modifyEntry name (e.ruling mode now).change).poolOrNew = p := by
    rw [poolOrNew_modifyEntry, Scheduler.poolOrNew, present, Option.getD_some]
  unfold carry
  cases starts : (e.ruling mode now).starts with
  | true =>
    have free := e.free_of_starts mode now starts
    have going := e.result_of_starts mode now starts
    simp only [if_true, submit, Scheduler.submit, before, Pool.submit_of_room opened (room free),
      Except.map, going]
  | false =>
    simp [Scheduler.modifyEntry, present]

/-- The part of a dispatcher that the workers see, after a chore of the control thread. -/
structure Spares (s : Dispatcher) (c : Chore) (p : Pool String Run) (u : Dispatcher) : Prop where
  clock : u.clock = s.clock
  workers : u.scheduler.workers = s.scheduler.workers
  gear : ∀ name, u.gear name = s.gear name
  /-- At most the task that is evaluated is put at the end of the backlog. -/
  pool : ∃ more, u.scheduler.pool = some { p with backlog := p.backlog ++ more } ∧
    ∀ name ∈ more, c = .consider name

theorem gear_of_entries {name : String} {f : Entry → Entry}
    (entries : u.scheduler.entries = (s.scheduler.modifyEntry name f).entries)
    (keeps : ∀ e, (f e).task.name = e.task.name ∧ (f e).task.body = e.task.body ∧
      (f e).task.permits = e.task.permits) (other : String) : u.gear other = s.gear other := by
  have entry : u.scheduler.entry? other =
      Scheduler.entry? (s.scheduler.modifyEntry name f) other := by
    rw [Scheduler.entry?, entries, Scheduler.entry?]
  have named : ∀ e, (f e).task.name = e.task.name := fun e => (keeps e).1
  unfold gear
  rw [entry]
  by_cases same : other = name
  · subst same
    rw [Scheduler.entry?_modifyEntry_self _ _ named]
    cases s.scheduler.entry? other with
    | none => rfl
    | some e => simp [keeps e]
  · rw [Scheduler.entry?_modifyEntry_of_ne _ same named]

/-- A chore that is not an action leaves alone what the workers see, but for the end of the backlog. -/
theorem perform_spares {p : Pool String Run} (present : s.scheduler.pool = some p)
    (sound : s.scheduler.Sound) (own : ∀ action, c ≠ .act action)
    (done : s.perform now c = (result, u)) : s.Spares c p u := by
  have nothing : some p = some { p with backlog := p.backlog ++ [] } := by rw [List.append_nil]
  cases c with
  | consider name =>
    simp only [perform, consider_eq] at done
    cases found : s.scheduler.entry? name with
    | none =>
      simp only [found] at done
      cases done
      exact ⟨rfl, rfl, fun _ => rfl, [], present.trans nothing, by simp⟩
    | some e =>
      simp only [found] at done
      rw [carry_eq present (sound.running p present) name e s.scheduler.mode fun free =>
        sound.room found free present] at done
      cases done
      refine ⟨rfl, rfl, ?_, _, rfl, ?_⟩
      · apply gear_of_entries rfl
        intro other
        obtain ⟨_, _, _, same⟩ := e.task_ruling_change s.scheduler.mode now other
        rw [same]
        exact ⟨rfl, rfl, rfl⟩
      · intro other member
        split at member
        · rw [List.mem_singleton.mp member]
        · cases member
  | record event name =>
    cases done
    exact ⟨rfl, rfl, fun _ => rfl, [], present.trans nothing, by simp⟩
  | note line =>
    cases done
    exact ⟨rfl, rfl, fun _ => rfl, [], present.trans nothing, by simp⟩
  | act action => exact absurd rfl (own action)

namespace Spares

variable {p : Pool String Run} (spares : s.Spares c p u) (present : s.scheduler.pool = some p)
include spares present

theorem held : u.held = s.held := by
  obtain ⟨more, pool, _⟩ := spares.pool
  simp [Dispatcher.held, pool, present]

theorem waiting {name : String} (waits : name ∈ u.waiting) :
    name ∈ s.waiting ∨ c = .consider name := by
  obtain ⟨more, pool, evaluated⟩ := spares.pool
  simp only [Dispatcher.waiting, pool, present, Option.map_some, Option.getD_some] at waits ⊢
  rcases List.mem_append.mp waits with old | new
  · exact .inl old
  · exact .inr (evaluated name new)

/-- What a worker could do before the chore, it can do after it, and it is the same work. -/
theorem toils {move : Move} {l : Labour} (toils : s.Toils move l) : u.Toils move l := by
  cases toils with
  | @take name q offers =>
    rw [← entering_congr spares.clock (spares.gear name)]
    obtain ⟨more, pool, _⟩ := spares.pool
    have same : q = p := Option.some.inj (offers.present.symm.trans present)
    subst same
    refine .take (p := { q with backlog := q.backlog ++ more }) ⟨pool, ?_, offers.free, offers.running⟩
    rw [offers.front]
    rfl
  | @finish run held ready =>
    rw [← finishing_congr spares.clock (spares.gear run.name)]
    apply Toils.finish
    · rw [spares.held present]
      exact held
    · rw [ready_congr spares.clock (spares.gear run.name)]
      exact ready

end Spares

end

/-! ### After the work of another worker -/

section

variable {s : Dispatcher} {l k : Labour} {move move' : Move}

theorem gear_does_of_ne (keeps : ∀ t, (l.task t).name = t.name) {name : String}
    (different : name ≠ l.name) : (s.does l).gear name = s.gear name := by
  unfold gear
  rw [entry?_does_of_ne keeps different]

/-- A worker that works holds nothing new but a run of the task it works on. -/
theorem Toils.mem_held (toils : s.Toils move l) {run : Run} (held : run ∈ (s.does l).held) :
    run ∈ s.held ∨ run.name = l.name := by
  obtain ⟨p, present, _⟩ := toils.proper
  simp only [Dispatcher.held, does, present, Option.map_some, Option.getD_some] at held ⊢
  cases toils with
  | take offers =>
    rcases List.mem_append.mp held with old | new
    · exact .inl old
    · rw [List.mem_singleton.mp new]
      exact .inr rfl
  | finish held' ready => exact .inl (List.mem_of_mem_erase held)

/-- A worker that works adds nothing to the backlog. -/
theorem Toils.mem_waiting (toils : s.Toils move l) {name : String}
    (waits : name ∈ (s.does l).waiting) : name ∈ s.waiting := by
  obtain ⟨p, present, _⟩ := toils.proper
  simp only [waiting, does, present, Option.map_some, Option.getD_some] at waits ⊢
  cases toils with
  | take offers => exact List.mem_of_mem_tail waits
  | finish held ready => exact waits

/-- The bodies of the tasks do not change when they are worked on. -/
theorem time_entering_does {p : Pool String Run} (proper : l.Proper p) (name : String) :
    ((s.does l).entering name).time = (s.entering name).time := by
  have work : ((s.does l).scheduler.task? name).map (·.body.work) =
      (s.scheduler.task? name).map (·.body.work) := by
    unfold Scheduler.task?
    by_cases same : name = l.name
    · subst same
      rw [entry?_does_self proper.keeps]
      simp [Function.comp_def, proper.body]
    · rw [entry?_does_of_ne proper.keeps same]
  simp only [entering, work]

/-- Unfinished jobs are of different tasks. -/
theorem outstanding_nodup (sound : s.scheduler.Sound) : s.scheduler.outstanding.Nodup := by
  rw [List.nodup_iff_count_le_one]
  intro name
  exact (sound.single name).trans (Bool.toNat_le _)

theorem clock_does (still : l.time = 0) : (s.does l).clock = s.clock := by
  simp [does, still, Instant.advance]

/-- Two workers are at work on different tasks. -/
theorem Toils.name_ne (sound : s.scheduler.Sound) (first : s.Toils move l) (second : s.Toils move' k)
    (different : move ≠ move') : l.name ≠ k.name := by
  have once := outstanding_nodup sound
  rw [outstanding_eq] at once
  obtain ⟨_, heldOnce, apart⟩ := List.nodup_append.mp once
  have front : ∀ {name p}, s.Offers name p → name ∈ s.waiting := by
    intro name p offers
    simp only [waiting, offers.present, Option.map_some, Option.getD_some]
    rw [offers.front]
    exact List.mem_cons_self
  cases first with
  | take offers =>
    cases second with
    | take _ => exact absurd rfl different
    | @finish run held ready => exact apart _ (front offers) _ (List.mem_map_of_mem held)
  | @finish run held ready =>
    cases second with
    | take offers => exact (apart _ (front offers) _ (List.mem_map_of_mem held)).symm
    | @finish other held' ready' =>
      intro same
      apply different
      rw [List.inj_on_of_nodup_map heldOnce held held' same]

/-- What a worker could do before another worked, it can do afterwards, and it is the same work. -/
theorem Toils.after (second : s.Toils move' k) (sound : s.scheduler.Sound) (first : s.Toils move l)
    (different : move ≠ move') (still : l.time = 0) : (s.does l).Toils move' k := by
  have apart := first.name_ne sound second different
  obtain ⟨p, present, proper⟩ := first.proper
  have clock := clock_does (s := s) still
  have gear := gear_does_of_ne (s := s) proper.keeps apart.symm
  have pool : (s.does l).scheduler.pool = some (l.pool p) := by simp [does, present]
  cases second with
  | @take name q offers =>
    have same : q = p := Option.some.inj (offers.present.symm.trans present)
    subst same
    have work : (s.does l).entering name = s.entering name := entering_congr clock gear
    rw [← work]
    cases first with
    | take _ => exact absurd rfl different
    | @finish run held ready =>
      have fewer : (q.held.erase run).length ≤ q.held.length := List.length_erase_le
      exact .take ⟨pool, offers.front, lt_of_le_of_lt fewer offers.free, offers.running⟩
  | @finish run held ready =>
    have work : (s.does l).finishing run = s.finishing run := finishing_congr clock gear
    rw [← work]
    apply Toils.finish
    · obtain ⟨q, present', within⟩ := pool_of_held held
      have same : q = p := Option.some.inj (present'.symm.trans present)
      subst same
      rw [Dispatcher.held, pool, Option.map_some, Option.getD_some]
      cases first with
      | take _ => exact List.mem_append_left _ within
      | @finish other held' ready' =>
        have distinct : run ≠ other := by
          rintro rfl
          exact different rfl
        exact (List.mem_erase_of_ne distinct).mpr within
    · rw [ready_congr clock gear]
      exact ready

/-- The work of two workers on the pool is done in either order. -/
theorem Toils.pool_comm {p : Pool String Run} (present : s.scheduler.pool = some p)
    (first : s.Toils move l) (second : s.Toils move' k) (different : move ≠ move') :
    k.pool (l.pool p) = l.pool (k.pool p) := by
  have within : ∀ {run}, run ∈ s.held → run ∈ p.held := by
    intro run held
    simpa [Dispatcher.held, present] using held
  cases first with
  | take _ =>
    cases second with
    | take _ => exact absurd rfl different
    | @finish run held ready =>
      simp [entering, finishing, Pool.release, List.erase_append_left _ (within held)]
  | @finish run held ready =>
    cases second with
    | take _ => simp [entering, finishing, Pool.release, List.erase_append_left _ (within held)]
    | @finish other held' ready' =>
      simp only [finishing, Pool.release, List.erase_comm]

/-- The work of two workers is done in either order, up to the order of their lines. -/
theorem Toils.does_comm (sound : s.scheduler.Sound) (first : s.Toils move l)
    (second : s.Toils move' k) (different : move ≠ move') :
    ((s.does l).does k).hushed = ((s.does k).does l).hushed := by
  obtain ⟨p, present, proper⟩ := first.proper
  obtain ⟨q, present', proper'⟩ := second.proper
  have same : q = p := Option.some.inj (present'.symm.trans present)
  subst same
  exact Dispatcher.does_comm proper proper' present (first.name_ne sound second different)
    (first.pool_comm present second different)

end

end Dispatcher

/-! ## Moves -/

namespace Moment

variable {m m' : Moment} {move : Move}

/-- A worker makes a move if it can do the work. -/
theorem step_of_toils {l : Labour} (toils : m.dispatcher.Toils move l) :
    m.step? move = some (m.withDispatcher (m.dispatcher.does l)) := by
  cases toils with
  | take offers =>
    have taken := Dispatcher.take?_eq_some_iff.mpr ⟨_, _, offers, rfl⟩
    simp [step?, taken]
  | @finish run held ready =>
    simp [step?, held, ready, Dispatcher.finish_eq]

/-- A move of a worker is some work. -/
theorem toils_of_step (made : m.step? move = some m')
    (worker : move = .take ∨ ∃ run, move = .finish run) :
    ∃ l, m.dispatcher.Toils move l ∧ m' = m.withDispatcher (m.dispatcher.does l) := by
  rcases worker with rfl | ⟨run, rfl⟩
  · obtain ⟨t, taken, rfl⟩ := Option.map_eq_some_iff.mp made
    obtain ⟨name, p, offers, rfl⟩ := Dispatcher.take?_eq_some_iff.mp taken
    exact ⟨_, .take offers, rfl⟩
  · simp only [step?] at made
    split at made
    · rename_i may
      cases made
      exact ⟨_, .finish may.1 may.2, by rw [Dispatcher.finish_eq]⟩
    · cases made

/-- The next chore can always be done. -/
theorem step_chore {chore : Chore} {rest : List Chore} (left : m.chores = chore :: rest) :
    m.step? .chore = some { m with
      dispatcher := (m.dispatcher.perform m.now chore).2
      chores := (m.dispatcher.perform m.now chore).1.next rest
      verdict := (m.dispatcher.perform m.now chore).1.verdict m.verdict } := by
  cases performed : m.dispatcher.perform m.now chore with
  | mk result t =>
    cases result <;>
      simp [step?, doChore?, left, performed, Chore.Result.next, Chore.Result.verdict]

end Moment

end Cadence

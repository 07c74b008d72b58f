import Mathlib.Logic.Relation
import Cadence.Proofs.Execution
import Cadence.Proofs.Staffing

/-!
A tick does not depend on when the workers work.

If the workers have settled when a tick begins, then what they hold stays blocked throughout the tick,
and what waits in the backlog stays there, unless a worker is free; and then nothing waits.  So no
task that is still to be evaluated can be entered or finished meanwhile (`Moment.Steady`).  The moves
of the tick then commute (`Moment.Steady.diamond`), up to the order in which the workers log, and all
interleavings of the tick come to the same (`Moment.tick_timing_independent`).
-/

namespace Cadence

/-- The clock stands still while tasks run, or there is one worker only. -/
def Scheduler.Timeless (s : Scheduler) : Prop :=
  (∀ e ∈ s.entries, e.task.body.work = 0) ∨ s.workers = 1

namespace Moment

/-- A moment of a tick that began when the workers had settled. -/
structure Steady (m : Moment) : Prop where
  sound : m.Sound
  staffed : m.dispatcher.scheduler.Staffed
  /-- The sink only counts. -/
  counting : m.dispatcher.sink.hooks = []
  /-- The clock stands still while tasks run, or there is one worker only. -/
  timeless : (∀ name, (m.dispatcher.entering name).time = 0) ∨ m.dispatcher.scheduler.workers = 1
  /-- No task is evaluated twice. -/
  once : ∀ name, m.chores.count (.consider name) ≤ 1
  /-- What is held of a task that is still to be evaluated is blocked. -/
  blocked : ∀ run ∈ m.dispatcher.held, .consider run.name ∈ m.chores →
    m.dispatcher.ready run = false
  /-- A task that is still to be evaluated waits only if no worker can do anything. -/
  stuck : ∀ name ∈ m.dispatcher.waiting, .consider name ∈ m.chores → m.dispatcher.Stuck

variable {m m' : Moment} {move : Move}

/-- If no body takes time, no worker moves the clock. -/
theorem still_of_work {s : Dispatcher} (still : ∀ e ∈ s.scheduler.entries, e.task.body.work = 0)
    (name : String) : (s.entering name).time = 0 := by
  simp only [Dispatcher.entering, Scheduler.task?]
  cases found : s.scheduler.entry? name with
  | none => rfl
  | some e => exact still e (Scheduler.mem_of_found found)

theorem timeless_entering {s : Dispatcher} (timeless : s.scheduler.Timeless) :
    (∀ name, (s.entering name).time = 0) ∨ s.scheduler.workers = 1 := by
  rcases timeless with still | single
  · exact .inl (still_of_work still)
  · exact .inr single

namespace Steady

/-- In a steady moment a worker has no work on a task that is still to be evaluated. -/
theorem apart (steady : m.Steady) {l : Labour} (toils : m.dispatcher.Toils move l) :
    .consider l.name ∉ m.chores := by
  intro ahead
  cases toils with
  | take offers => exact (steady.stuck _ offers.waits ahead).not_toils (.take offers)
  | finish held ready =>
    rw [steady.blocked _ held ahead] at ready
    cases ready

/-- The chores of a steady moment are not actions. -/
theorem own (steady : m.Steady) {c : Chore} (ahead : c ∈ m.chores) : ∀ action, c ≠ .act action := by
  rintro action rfl
  obtain ⟨hook, hooked, _⟩ := steady.sound.answered action ahead
  rw [steady.counting] at hooked
  cases hooked

/-- A worker that works keeps a moment steady. -/
theorem work (steady : m.Steady) {l : Labour} (toils : m.dispatcher.Toils move l) :
    (m.withDispatcher (m.dispatcher.does l)).Steady := by
  obtain ⟨p, present, proper⟩ := toils.proper
  have clear := steady.apart toils
  constructor
  · exact sound_step steady.sound (step_of_toils toils)
  · exact toils.staffed steady.staffed
  · exact steady.counting
  · rcases steady.timeless with still | single
    · exact .inl fun name => (Dispatcher.time_entering_does proper name).trans (still name)
    · exact .inr single
  · exact steady.once
  · intro run held ahead
    have other : run.name ≠ l.name := fun same => clear (same ▸ ahead)
    have old := (toils.mem_held held).resolve_right other
    have before := steady.blocked run old ahead
    have gear := Dispatcher.gear_does_of_ne (s := m.dispatcher) proper.keeps other
    rcases steady.timeless with still | single
    · have stands : l.time = 0 := by
        cases toils with
        | take offers => exact still _
        | finish held ready => rfl
      rw [← before]
      exact Dispatcher.ready_congr (Dispatcher.clock_does stands) gear
    · -- a single worker that takes a job holds nothing else
      obtain ⟨q, present', within⟩ := Dispatcher.pool_of_held old
      have same : q = p := Option.some.inj (present'.symm.trans present)
      subst same
      cases toils with
      | @take name q' offers =>
        have same : q' = q := Option.some.inj (offers.present.symm.trans present)
        subst same
        have free := offers.free
        have one := steady.staffed.workers q' present
        have some := List.length_pos_of_mem within
        omega
      | finish held ready =>
        rw [← before]
        exact Dispatcher.ready_congr (Dispatcher.clock_does rfl) gear
  · intro name waits ahead
    exact absurd toils (steady.stuck name (toils.mem_waiting waits) ahead).not_toils

/-- A chore keeps a moment steady. -/
theorem chore (steady : m.Steady) (made : m.step? .chore = some m') : m'.Steady := by
  have sound := sound_step steady.sound made
  cases makes made with
  | @performed c rest result t left done =>
    obtain ⟨p, present⟩ := Option.isSome_iff_exists.mp (steady.sound.started (by simp [left]))
    have own := steady.own (show c ∈ m.chores by simp [left])
    have spares := Dispatcher.perform_spares present steady.sound.scheduler own done
    obtain ⟨more, pool, _⟩ := spares.pool
    have later : ∀ name, .consider name ∈ result.next rest → .consider name ∈ rest := by
      intro name ahead
      have positive := List.count_pos_iff.mpr ahead
      have fewer := Dispatcher.count_next_le done rest name
      exact List.count_pos_iff.mp (by omega)
    have before : ∀ name, .consider name ∈ rest → .consider name ∈ m.chores := by
      intro name ahead
      rw [left]
      exact List.mem_cons_of_mem c ahead
    constructor
    · exact sound
    · exact steady.staffed.append present pool spares.workers
    · rcases Dispatcher.sink_perform done with same | ⟨key, counted⟩
      · exact same ▸ steady.counting
      · exact counted ▸ steady.counting
    · rcases steady.timeless with still | single
      · left
        intro name
        rw [Dispatcher.entering_congr spares.clock (spares.gear name)]
        exact still name
      · exact .inr (spares.workers.trans single)
    · intro name
      have once := steady.once name
      rw [left] at once
      have fewer := Dispatcher.count_next_le done rest name
      have less : rest.count (.consider name) ≤ (c :: rest).count (.consider name) :=
        List.count_le_count_cons
      simp only
      omega
    · intro run held ahead
      rw [Dispatcher.ready_congr spares.clock (spares.gear run.name)]
      rw [spares.held present] at held
      exact steady.blocked run held (before _ (later _ ahead))
    · intro name waits ahead
      rcases spares.waiting present waits with old | evaluated
      · exact spares.stuck present (steady.stuck name old (before _ (later _ ahead)))
      · -- the task that was just evaluated is not evaluated again
        have once := steady.once name
        rw [left, evaluated, List.count_cons_self] at once
        have positive := List.count_pos_iff.mpr (later _ ahead)
        omega

/-- A tick that begins when the workers have settled begins steadily. -/
theorem beginTick (sound : m.Sound) (staffed : m.dispatcher.scheduler.Staffed)
    (settled : m.dispatcher.Settled) (counting : m.dispatcher.sink.hooks = [])
    (timeless : m.dispatcher.scheduler.Timeless) (idle : m.idle = true) (now : Instant) :
    (m.beginTick now).Steady := by
  have made : m.step? (.tick now) = some (m.beginTick now) := by simp [step?, idle]
  have opened := settled.opened
  constructor
  · exact sound_step sound made
  · exact staffed_step sound staffed made
  · simpa [Moment.beginTick] using counting
  · rcases timeless_entering timeless with still | single
    · left
      intro name
      have same := Dispatcher.entering_congr m.dispatcher.clock_opened (m.dispatcher.gear_opened name)
      simp only [Moment.beginTick, same]
      exact still name
    · right
      simp only [Moment.beginTick, Dispatcher.opened]
      split
      · rw [Dispatcher.scheduler_start]
        exact single
      · exact single
  · intro name
    simp only [Moment.beginTick, count_agenda sound.scheduler.distinct]
    split <;> simp
  · exact fun run held _ => opened.blocked run held
  · exact fun name waits _ => opened.stuck waits

/-- Between two ticks every moment is steady. -/
theorem of_idle (sound : m.Sound) (staffed : m.dispatcher.scheduler.Staffed)
    (counting : m.dispatcher.sink.hooks = [])
    (timeless : m.dispatcher.scheduler.Timeless) (idle : m.idle = true) : m.Steady := by
  have none : m.chores = [] := List.isEmpty_iff.mp idle
  constructor
  · exact sound
  · exact staffed
  · exact counting
  · exact timeless_entering timeless
  · simp [none]
  · simp [none]
  · simp [none]

/-- If two workers can make a step, the clock stands still in both. -/
theorem instant (steady : m.Steady) {move' : Move} {l k : Labour}
    (first : m.dispatcher.Toils move l) (second : m.dispatcher.Toils move' k)
    (different : move ≠ move') : l.time = 0 := by
  rcases steady.timeless with still | single
  · cases first with
    | take offers => exact still _
    | finish held ready => rfl
  · cases first with
    | @take name p offers =>
      cases second with
      | take _ => exact absurd rfl different
      | finish held ready =>
        -- a single worker is either free or holds a run
        obtain ⟨q, present, within⟩ := Dispatcher.pool_of_held held
        have same : q = p := Option.some.inj (present.symm.trans offers.present)
        subst same
        have free := offers.free
        have one := steady.staffed.workers q present
        have some := List.length_pos_of_mem within
        omega
    | finish held ready => rfl

end Steady

/-! ## Two moves of a tick commute -/

/-- What is left of a moment without the order in which the workers log. -/
def hushed (m : Moment) : Moment := m.withDispatcher m.dispatcher.hushed

namespace Steady

/-- Two moves can be made in either order, and what comes of it differs at most in the order in which
the workers log. -/
def Commute (m : Moment) (move move' : Move) : Prop :=
  ∀ m₁ m₂, m.step? move = some m₁ → m.step? move' = some m₂ →
    ∃ m₃ m₄, m₁.step? move' = some m₃ ∧ m₂.step? move = some m₄ ∧ m₃.hushed = m₄.hushed

theorem Commute.symm {move' : Move} (commute : Commute m move move') : Commute m move' move := by
  intro m₁ m₂ made made'
  obtain ⟨m₃, m₄, first, second, same⟩ := commute m₂ m₁ made' made
  exact ⟨m₄, m₃, second, first, same.symm⟩

/-- The steps of two workers commute. -/
theorem commute_work (steady : m.Steady) {move' : Move} {l k : Labour}
    (first : m.dispatcher.Toils move l) (second : m.dispatcher.Toils move' k)
    (different : move ≠ move') : Commute m move move' := by
  intro m₁ m₂ made made'
  rw [step_of_toils first] at made
  rw [step_of_toils second] at made'
  cases made
  cases made'
  have sound := steady.sound.scheduler
  have later := second.after sound first different (steady.instant first second different)
  have sooner := first.after sound second different.symm
    (steady.instant second first different.symm)
  refine ⟨_, _, step_of_toils (m := m.withDispatcher _) later,
    step_of_toils (m := m.withDispatcher _) sooner, ?_⟩
  exact congrArg m.withDispatcher (first.does_comm sound second different)

/-- A chore and the step of a worker commute. -/
theorem commute_chore (steady : m.Steady) {l : Labour} (toils : m.dispatcher.Toils move l) :
    Commute m .chore move := by
  intro m₁ m₂ made made'
  rw [step_of_toils toils] at made'
  cases made'
  cases left : m.chores with
  | nil => simp [step?, doChore?, left] at made
  | cons c rest =>
    rw [step_chore left] at made
    cases made
    have ahead : c ∈ m.chores := by simp [left]
    obtain ⟨p, present, proper⟩ := toils.proper
    have sound := steady.sound.scheduler
    have other : c ≠ .consider l.name := by
      rintro rfl
      exact steady.apart toils ahead
    have spares := Dispatcher.perform_spares present sound (steady.own ahead)
      (rfl : m.dispatcher.perform m.now c = (_, _))
    have swapped := Dispatcher.perform_does proper present sound (steady.own ahead) other m.now
    refine ⟨_, _, step_of_toils (spares.toils present toils),
      step_chore (m := m.withDispatcher _) left, ?_⟩
    simp only [withDispatcher, swapped]

/-- Any two moves of a tick commute. -/
theorem diamond (steady : m.Steady) {move' : Move} (inside : move.Inside) (inside' : move'.Inside)
    (different : move ≠ move') : Commute m move move' := by
  have toils : ∀ {move : Move} {m₁ : Moment}, move.Inside → move ≠ .chore →
      m.step? move = some m₁ → ∃ l, m.dispatcher.Toils move l := by
    intro move m₁ inside worker made
    have either : move = .take ∨ ∃ run, move = .finish run := by
      cases move with
      | chore => exact absurd rfl worker
      | take => exact .inl rfl
      | finish run => exact .inr ⟨run, rfl⟩
      | _ => cases inside
    obtain ⟨l, toils, _⟩ := toils_of_step made either
    exact ⟨l, toils⟩
  intro m₁ m₂ made made'
  by_cases first : move = .chore
  · obtain ⟨l, work⟩ := toils inside' (fun same => different (first.trans same.symm)) made'
    subst first
    exact steady.commute_chore work m₁ m₂ made made'
  · obtain ⟨l, work⟩ := toils inside first made
    by_cases second : move' = .chore
    · subst second
      exact (steady.commute_chore work).symm m₁ m₂ made made'
    · obtain ⟨k, work'⟩ := toils inside' second made'
      exact steady.commute_work work work' different m₁ m₂ made made'

end Steady

/-! ## All interleavings of a tick -/

theorem carry_hushed (s : Dispatcher) (name : String) (r : Ruling) :
    s.hushed.carry name r = ((s.carry name r).1, (s.carry name r).2.hushed) := by
  unfold Dispatcher.carry
  split
  · unfold Dispatcher.submit
    cases submitted : (s.scheduler.modifyEntry name r.change).submit name <;>
      simp [Dispatcher.hushed, submitted]
  · rfl

/-- What the workers log decides nothing. -/
theorem perform_hushed {s : Dispatcher} {c : Chore} (own : ∀ action, c ≠ .act action)
    (now : Instant) :
    s.hushed.perform now c = ((s.perform now c).1, (s.perform now c).2.hushed) := by
  cases c with
  | consider name =>
    simp only [Dispatcher.perform, Dispatcher.consider_eq]
    cases found : s.scheduler.entry? name with
    | none => simp [Dispatcher.hushed, found]
    | some e => simpa [Dispatcher.hushed, found] using carry_hushed s name _
  | record event name => rfl
  | note line => rfl
  | act action => exact absurd rfl (own action)

/-- A move of a tick can be made whatever the workers logged, and comes to the same. -/
theorem step_hushed (steady : m.Steady) (inside : move.Inside) (made : m.step? move = some m') :
    ∃ m'', m.hushed.step? move = some m'' ∧ m''.hushed = m'.hushed := by
  have work : (∃ l, m.dispatcher.Toils move l ∧ m' = m.withDispatcher (m.dispatcher.does l)) →
      ∃ m'', m.hushed.step? move = some m'' ∧ m''.hushed = m'.hushed := by
    rintro ⟨l, toils, rfl⟩
    have toils' : m.hushed.dispatcher.Toils move l := by
      cases toils with
      | take offers => exact .take ⟨offers.present, offers.front, offers.free, offers.running⟩
      | finish held ready => exact .finish held ready
    exact ⟨_, step_of_toils toils', rfl⟩
  cases move with
  | chore =>
    cases left : m.chores with
    | nil => simp [step?, doChore?, left] at made
    | cons c rest =>
      rw [step_chore left] at made
      cases made
      refine ⟨_, step_chore (m := m.hushed) left, ?_⟩
      have same := perform_hushed (s := m.dispatcher)
        (steady.own (show c ∈ m.chores by simp [left])) m.now
      simp only [hushed, withDispatcher, same]
      rfl
  | take => exact work (toils_of_step made (.inl rfl))
  | finish run => exact work (toils_of_step made (.inr ⟨run, rfl⟩))
  | _ => cases inside

theorem Steady.hushed (steady : m.Steady) : m.hushed.Steady where
  sound := ⟨steady.sound.scheduler, steady.sound.counters, steady.sound.started,
    steady.sound.ordered, steady.sound.answered, steady.sound.faulted⟩
  staffed := steady.staffed
  counting := steady.counting
  timeless := steady.timeless
  once := steady.once
  blocked := steady.blocked
  stuck name waits ahead := ⟨(steady.stuck name waits ahead).blocked,
    (steady.stuck name waits ahead).full⟩

theorem Steady.step (steady : m.Steady) (inside : move.Inside) (made : m.step? move = some m') :
    m'.Steady := by
  have work : (∃ l, m.dispatcher.Toils move l ∧ m' = m.withDispatcher (m.dispatcher.does l)) →
      m'.Steady := by
    rintro ⟨l, toils, rfl⟩
    exact steady.work toils
  cases move with
  | chore => exact steady.chore made
  | take => exact work (toils_of_step made (.inl rfl))
  | finish run => exact work (toils_of_step made (.inr ⟨run, rfl⟩))
  | _ => cases inside

/-- A move of a tick leads from a steady moment to another, the workers' log being left out. -/
def Turns (a b : Moment) : Prop :=
  a.Steady ∧ ∃ move m', move.Inside ∧ a.step? move = some m' ∧ m'.hushed = b

theorem turns_diamond {a b c : Moment} (left : Turns a b) (right : Turns a c) :
    ∃ d, Relation.ReflGen Turns b d ∧ Relation.ReflTransGen Turns c d := by
  obtain ⟨steady, move, m₁, inside, made, rfl⟩ := left
  obtain ⟨_, move', m₂, inside', made', rfl⟩ := right
  by_cases same : move = move'
  · subst same
    rw [made] at made'
    cases made'
    exact ⟨m₁.hushed, .refl, .refl⟩
  · obtain ⟨m₃, m₄, second, first, joined⟩ := steady.diamond inside inside' same m₁ m₂ made made'
    have steady₁ := steady.step inside made
    have steady₂ := steady.step inside' made'
    obtain ⟨n₃, reached₃, same₃⟩ := step_hushed steady₁ inside' second
    obtain ⟨n₄, reached₄, same₄⟩ := step_hushed steady₂ inside first
    have turn₁ : Turns m₁.hushed m₃.hushed := ⟨steady₁.hushed, move', n₃, inside', reached₃, same₃⟩
    have turn₂ : Turns m₂.hushed m₃.hushed :=
      ⟨steady₂.hushed, move, n₄, inside, reached₄, same₄.trans joined.symm⟩
    exact ⟨m₃.hushed, .single turn₁, .single turn₂⟩

/-- Every sequence of moves of a tick is one of turns. -/
theorem Steady.turns (steady : m.Steady) (reached : Reaches Move.Inside m m') :
    m'.Steady ∧ Relation.ReflTransGen Turns m.hushed m'.hushed := by
  induction reached with
  | refl => exact ⟨steady, .refl⟩
  | step before inside made ih =>
    obtain ⟨n, reached, same⟩ := step_hushed ih.1 inside made
    exact ⟨ih.1.step inside made, ih.2.tail ⟨ih.1.hushed, _, n, inside, reached, same⟩⟩

/-- When a tick is over and the workers have settled, there is no turn left. -/
theorem eq_of_turns (idle : m.idle = true) (settled : m.dispatcher.Settled)
    (turned : Relation.ReflTransGen Turns m m') : m = m' := by
  rcases Relation.ReflTransGen.cases_head turned with same | ⟨b, ⟨_, move, n, inside, made, _⟩, _⟩
  · exact same
  · exfalso
    have none : m.chores = [] := List.isEmpty_iff.mp idle
    cases move with
    | chore => simp [step?, doChore?, none] at made
    | take =>
      obtain ⟨l, toils, _⟩ := toils_of_step made (.inl rfl)
      exact settled.not_toils toils
    | finish run =>
      obtain ⟨l, toils, _⟩ := toils_of_step made (.inr ⟨run, rfl⟩)
      exact settled.not_toils toils
    | _ => cases inside

/-! ## What can be seen of a tick -/

/-- What is seen of two ends of a tick is the same: what it came to, its events, what the control thread
logged, and the due time, the health and the start time of every task. -/
structure Agree (m₁ m₂ : Moment) : Prop where
  verdict : m₁.verdict = m₂.verdict
  sink : m₁.dispatcher.sink = m₂.dispatcher.sink
  log : m₁.dispatcher.log = m₂.dispatcher.log
  tasks : ∀ name, (m₁.dispatcher.scheduler.entry? name).map
      (fun e => (e.due, e.task.health, e.task.startTime)) =
    (m₂.dispatcher.scheduler.entry? name).map fun e => (e.due, e.task.health, e.task.startTime)

namespace Agree

variable {m₁ m₂ m₃ : Moment}

theorem symm (agree : Agree m₁ m₂) : Agree m₂ m₁ :=
  ⟨agree.verdict.symm, agree.sink.symm, agree.log.symm, fun name => (agree.tasks name).symm⟩

theorem trans (agree : Agree m₁ m₂) (agree' : Agree m₂ m₃) : Agree m₁ m₃ where
  verdict := agree.verdict.trans agree'.verdict
  sink := agree.sink.trans agree'.sink
  log := agree.log.trans agree'.log
  tasks name := (agree.tasks name).trans (agree'.tasks name)

/-- The work of a worker is not seen. -/
theorem work {m : Moment} {move : Move} {l : Labour} (toils : m.dispatcher.Toils move l) :
    Agree m (m.withDispatcher (m.dispatcher.does l)) := by
  obtain ⟨p, _, proper⟩ := toils.proper
  constructor
  · rfl
  · rfl
  · rfl
  · intro name
    by_cases same : name = l.name
    · subst same
      have kept : ∀ t : Task, (l.task t).health = t.health ∧ (l.task t).startTime = t.startTime := by
        cases toils with
        | take offers => exact fun _ => ⟨rfl, rfl⟩
        | finish held ready => exact fun _ => ⟨rfl, rfl⟩
      simp [withDispatcher, Dispatcher.entry?_does_self proper.keeps, Function.comp_def, kept]
    · simp [withDispatcher, Dispatcher.entry?_does_of_ne proper.keeps same]

/-- Between two ticks nothing that the workers do is seen. -/
theorem of_idle {m : Moment} (idle : m.idle = true) (reached : Reaches Move.Inside m m') :
    m'.idle = true ∧ Agree m m' := by
  have work : ∀ {n n' : Moment} {move}, (move = .take ∨ ∃ run, move = .finish run) →
      n.step? move = some n' → n.idle = true ∧ Agree m n → n'.idle = true ∧ Agree m n' := by
    rintro n n' move worker made ⟨idle, agree⟩
    obtain ⟨l, toils, rfl⟩ := toils_of_step made worker
    exact ⟨idle, agree.trans (.work toils)⟩
  induction reached with
  | refl => exact ⟨idle, rfl, rfl, rfl, fun _ => rfl⟩
  | @step n n' move before inside made ih =>
    cases move with
    | chore =>
      have none : n.chores = [] := List.isEmpty_iff.mp ih.1
      simp [step?, doChore?, none] at made
    | take => exact work (.inl rfl) made ih
    | finish run => exact work (.inr ⟨run, rfl⟩) made ih
    | _ => cases inside

end Agree

/-- The workers can settle between two ticks. -/
theorem Steady.settles (steady : m.Steady) (idle : m.idle = true) :
    ∃ n, Reaches Move.Inside m n ∧ n.idle = true ∧ n.dispatcher.Settled ∧ Agree m n := by
  have reached := (carries_inside.settle m.dispatcher m.now m.chores m.verdict).1
  have sound := (steady.turns reached).1.sound.scheduler
  have settled := Dispatcher.settled_of_work sound.running (Dispatcher.work?_settle m.dispatcher)
  obtain ⟨idle, agree⟩ := Agree.of_idle idle reached
  exact ⟨_, reached, idle, settled, agree⟩

/-- Two interleavings of a tick that come to an end, with the workers settled, come to the same. -/
theorem Steady.confluent (steady : m.Steady) {m₁ m₂ : Moment} (first : Reaches Move.Inside m m₁)
    (second : Reaches Move.Inside m m₂) (idle₁ : m₁.idle = true) (idle₂ : m₂.idle = true)
    (settled₁ : m₁.dispatcher.Settled) (settled₂ : m₂.dispatcher.Settled) :
    m₁.hushed = m₂.hushed := by
  obtain ⟨end₁, turned₁⟩ := steady.turns first
  obtain ⟨end₂, turned₂⟩ := steady.turns second
  obtain ⟨n, last₁, last₂⟩ := Relation.church_rosser (fun _ _ _ => turns_diamond) turned₁ turned₂
  have same₁ : m₁.hushed = n := eq_of_turns idle₁ ⟨settled₁.blocked, settled₁.full⟩ last₁
  have same₂ : m₂.hushed = n := eq_of_turns idle₂ ⟨settled₂.blocked, settled₂.full⟩ last₂
  exact same₁.trans same₂.symm

/-- Two ends of an interleaving of the same tick, whenever its workers worked. -/
structure Indistinct (m₁ m₂ : Moment) : Prop extends Agree m₁ m₂ where
  /-- Once the workers have settled, the same jobs wait in the same order. -/
  backlog : m₁.dispatcher.Settled → m₂.dispatcher.Settled →
    m₁.dispatcher.waiting = m₂.dispatcher.waiting
  /-- The same runs are blocked. -/
  held : m₁.dispatcher.Settled → m₂.dispatcher.Settled → m₁.dispatcher.held = m₂.dispatcher.held
  /-- The runs that ended are accounted for in the same way. -/
  stats : m₁.dispatcher.Settled → m₂.dispatcher.Settled → ∀ name,
    (m₁.dispatcher.scheduler.task? name).map (·.stats) =
      (m₂.dispatcher.scheduler.task? name).map (·.stats)
  /-- There is no difference at all but in the order in which the workers logged. -/
  rest : m₁.dispatcher.Settled → m₂.dispatcher.Settled → m₁.hushed = m₂.hushed

/-- However the chores of a tick interleave with the steps of the workers, the tick comes to the same,
if the workers had settled before, the sink only counts, and no time passes in the bodies or there is
one worker only. -/
theorem tick_timing_independent {workers : Nat} {scheduler : Scheduler}
    (created : Scheduler.create workers = .ok scheduler)
    (reached : Reaches (fun _ => True) (initial scheduler) m) (idle : m.idle = true)
    (settled : m.dispatcher.Settled) (counting : m.dispatcher.sink.hooks = [])
    (timeless : m.dispatcher.scheduler.Timeless) (now : Instant) {m₁ m₂ : Moment}
    (first : Reaches Move.Inside (m.beginTick now) m₁)
    (second : Reaches Move.Inside (m.beginTick now) m₂)
    (done₁ : m₁.idle = true) (done₂ : m₂.idle = true) : Indistinct m₁ m₂ := by
  have steady := Steady.beginTick (reached.sound created) (reached.staffed created) settled counting
    timeless idle now
  have agree : Agree m₁ m₂ := by
    -- each end is seen as what it settles to, and these are the same
    obtain ⟨n₁, more₁, idle₁, settled₁, agree₁⟩ := (steady.turns first).1.settles done₁
    obtain ⟨n₂, more₂, idle₂, settled₂, agree₂⟩ := (steady.turns second).1.settles done₂
    have same := steady.confluent (first.trans more₁) (second.trans more₂) idle₁ idle₂ settled₁
      settled₂
    have joined : Agree n₁ n₂ := by
      constructor
      · exact congrArg (fun n => n.verdict) same
      · exact congrArg (fun n => n.dispatcher.sink) same
      · exact congrArg (fun n => n.dispatcher.log) same
      · intro name
        exact congrArg (fun n => (n.dispatcher.scheduler.entry? name).map
          fun e => (e.due, e.task.health, e.task.startTime)) same
    exact agree₁.trans (joined.trans agree₂.symm)
  have rest : m₁.dispatcher.Settled → m₂.dispatcher.Settled → m₁.hushed = m₂.hushed :=
    steady.confluent first second done₁ done₂
  constructor
  · exact agree
  · intro settled₁ settled₂
    exact congrArg (fun n => n.dispatcher.waiting) (rest settled₁ settled₂)
  · intro settled₁ settled₂
    exact congrArg (fun n => n.dispatcher.held) (rest settled₁ settled₂)
  · intro settled₁ settled₂ name
    exact congrArg (fun n => (n.dispatcher.scheduler.task? name).map (·.stats))
      (rest settled₁ settled₂)
  · exact rest

/-! ## A sample tick

One worker and two tasks, the second of which needs no permit.  The worker either works as soon as it
can, or after the tick only. -/

namespace Pair

/-- What is done before the tick. -/
def moves : List Move :=
  [.register (some Sample.brief) .epoch, .register (some Sample.gated) .epoch, .act (.setEnabled true)]

/-- The worker works as soon as it can. -/
def eager : List Move := [.chore, .take, .finish ⟨"brief", .epoch⟩, .chore, .take]

/-- The worker works after the tick. -/
def late : List Move := [.chore, .chore, .take, .finish ⟨"brief", .epoch⟩, .take]

end Pair

/-- In the sample both interleavings run the first task and leave the worker with the second. -/
theorem tick_timing_independent_sample :
    let before := (lead (initial Sample.scheduler) Pair.moves).2
    let begun := before.beginTick ⟨1000000000⟩
    let m₁ := (lead begun Pair.eager).2
    let m₂ := (lead begun Pair.late).2
    m₁.dispatcher.held = [⟨"gated", .epoch⟩] ∧ Indistinct m₁ m₂ := by
  have before : Reaches (fun _ => True) (initial Sample.scheduler)
      (lead (initial Sample.scheduler) Pair.moves).2 :=
    (passes_lead (fun _ _ => trivial) (by decide +kernel)).reaches
  refine ⟨by decide +kernel, ?_⟩
  refine tick_timing_independent Sample.created before (by decide +kernel)
    ⟨by decide +kernel, by decide +kernel⟩ (by decide +kernel) (.inr (by decide +kernel)) ⟨1000000000⟩
    (passes_lead ?_ (by decide +kernel)).reaches (passes_lead ?_ (by decide +kernel)).reaches
    (by decide +kernel) (by decide +kernel)
  · simp [Pair.eager, Move.Inside]
  · simp [Pair.late, Move.Inside]

end Moment

end Cadence

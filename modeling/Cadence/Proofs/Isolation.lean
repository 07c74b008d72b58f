import Cadence.Proofs.DueTimes
import Cadence.Proofs.TickOutlook

/-!
A task does not feel its neighbours, if there are enough workers.

In a `Course` the workers settle after everything that is done from outside.  If there is a worker for
each task, no job waits then; so what is seen of a task afterwards follows from what was seen before and
what was done (`Moment.Course.view`), as far as it concerns the task at all.  Two schedulers to which the
same was done, as far as it concerns a task, hence hold the same of it, whatever other tasks they have
and whatever was done to those (`Moment.alike_of_same_orders`).
-/

namespace Cadence

/-- What is done from outside, without adding a hook; it registers tasks of a kind only. -/
def Move.Order (task : Task → Prop) : Move → Prop
  | .register (some new) _ => task new
  | .register none _ | .start | .tick _ | .note _ | .act _ => True
  | .chore | .hook _ | .take | .finish _ => False

theorem Move.Order.within {task : Task → Prop} {move : Move} (order : move.Order task) :
    move.Within task fun _ => True := by
  cases move with
  | register new instant => cases new <;> exact order
  | _ => trivial

/-- What is done, if it concerns the task of a name.  A registration that is refused does not. -/
def Stage.order? (stage : Stage) (name : String) : Option Move :=
  match stage.move with
  | .register (some task) instant =>
    if task.name = name ∧ stage.before.dispatcher.scheduler.refusal? name = none then
      some (.register (some task) instant)
    else none
  | .tick now => some (.tick now)
  | .act (.setHealth target health) =>
    if target = name then some (.act (.setHealth target health)) else none
  | .act (.permit target) => if target = name then some (.act (.permit target)) else none
  | .act (.raise _) => none
  | .act action => some (.act action)
  | .register none _ | .start | .note _ | .hook _ | .chore | .take | .finish _ => none

/-- All that was done that concerns the task of a name. -/
def History.orders (h : History Stage) (name : String) : History Move := h.filterMap (·.order? name)

namespace View

/-- Something that concerns the task is done. -/
def order (v : View) : Move → View
  | .register (some task) instant =>
    { v with entry := some ⟨{ task with contention := v.contention }, instant.after task.interval⟩ }
  | .tick now => if v.enabled then v.evaluate now else v
  | .act (.setMode mode) => { v with mode }
  | .act (.setEnabled enabled) => { v with enabled }
  | .act (.setContention contention) =>
    { v with
      contention
      entry := v.entry.map fun e => { e with task := { e.task with contention } } }
  | .act (.setHealth _ health) =>
    { v with entry := v.entry.map fun e => { e with task := { e.task with health } } }
  | .act (.permit _) => { v with entry := v.entry.map fun e => { e with task := e.task.permit } }
  | .act (.advance ns) => { v with clock := v.clock.advance ns }
  | .act (.raise _) | .register none _ | .start | .note _ | .hook _ | .chore | .take | .finish _ => v

/-- Something is done, which may concern the task. -/
def heed (v : View) (order? : Option Move) : View := (order?.map v.order).getD v

/-- What is seen of a task before anything happened. -/
def blank : View where
  clock := .epoch
  mode := .rca
  enabled := false
  contention := false
  entry := none
  waits := false
  run := none
  events := []

/-- What is seen of a task after all this was done, the workers doing what they can each time. -/
def after (name : String) (orders : History Move) : View :=
  orders.foldr (fun order v => (v.order order).relax name) blank

end View

/-- A body that takes no time, and no power to stop a tick unless the task has the name. -/
def Task.Meek (name : String) (t : Task) : Prop :=
  t.body.work = 0 ∧ (t.name ≠ name → t.has .critical = false)

theorem Task.Meek.congr {name : String} {t t' : Task} (meek : t.Meek name) (same : t'.spec = t.spec) :
    t'.Meek name := by
  have body : t'.body = t.body := Option.some.inj (congrArg Spec.body same)
  have named : t'.name = t.name := congrArg Spec.name same
  have capabilities : t'.capabilities = t.capabilities := congrArg Spec.capabilities same
  unfold Task.Meek Task.has at *
  rw [body, named, capabilities]
  exact meek

namespace Moment

variable {m m' : Moment} {move : Move} {name : String} {h : History Stage}

/-! ## What no step changes -/

/-- Tasks stay what they were asked for. -/
theorem kind_step {task : Task → Prop} (closed : ∀ t t', task t → t'.spec = t.spec → task t')
    (sound : m.Sound) (may : move.Within task fun _ => True) (made : m.step? move = some m')
    (kind : ∀ e ∈ m.dispatcher.scheduler.entries, task e.task) :
    ∀ e ∈ m'.dispatcher.scheduler.entries, task e.task := by
  intro e member
  have sound' := sound_step sound made
  have found := Scheduler.entry?_of_mem sound'.scheduler.distinct member
  have meaning := turn_within sound (fun _ _ => trivial) may e.task.name
  rcases (standing_step sound made e.task.name).due_cases found with ⟨new, instant, enrolled, _, same, _⟩ |
    ⟨before, present, _, same, _⟩
  · rw [enrolled] at meaning
    exact closed new e.task meaning same
  · exact closed before.task e.task (kind before (Scheduler.mem_of_found present)) same

/-! ## What is done, as the task sees it -/

end Moment

namespace Dispatcher

variable {s t : Dispatcher} {name : String}

/-- A change of one task is seen by this task. -/
theorem view_modifyTask (s : Dispatcher) {f : Task → Task} (keeps : ∀ t, (f t).name = t.name)
    (target name : String) : (s.modifyScheduler (·.modifyTask target f)).view name =
      if target = name then
        { s.view name with entry := (s.view name).entry.map fun e => { e with task := f e.task } }
      else s.view name := by
  have named : ∀ e : Entry, ({ e with task := f e.task } : Entry).task.name = e.task.name :=
    fun e => keeps e.task
  split
  · rename_i same
    subst same
    have changed := Scheduler.entry?_modifyEntry_self s.scheduler target named
    exact View.ext rfl rfl rfl rfl changed rfl rfl rfl
  · rename_i different
    have unchanged := Scheduler.entry?_modifyEntry_of_ne s.scheduler (Ne.symm different) named
    exact view_congr rfl ⟨rfl, rfl, rfl⟩ unchanged Iff.rfl rfl rfl

/-- No task sees that there is a pool. -/
theorem view_start (s : Dispatcher) (name : String) : s.start.view name = s.view name := by
  unfold start
  split
  · rfl
  · rename_i unstarted
    have none : s.scheduler.pool = none := by simpa [Scheduler.started] using unstarted
    apply view_congr
    · unfold noteWhen
      split <;> rfl
    · simp [Scheduler.start]
    · simp [Scheduler.start, Scheduler.entry?]
    · simp [waiting, none, Scheduler.start, Scheduler.poolOrNew]
    · simp [held, none, Scheduler.start, Scheduler.poolOrNew]
    · simp

theorem clock_start (s : Dispatcher) : s.start.clock = s.clock :=
  congrArg View.clock (s.view_start "")

theorem view_opened (s : Dispatcher) (name : String) : s.opened.view name = s.view name := by
  unfold opened
  split
  · exact s.view_start name
  · rfl

/-- A task sees of a control, a permit or the passing of time what concerns it. -/
theorem view_act {action : Action} (done : s.act action = .ok t) (before : Moment) :
    t.view name = (s.view name).heed (Stage.order? ⟨before, .act action⟩ name) := by
  cases action with
  | setMode mode =>
    cases done
    unfold setMode noteWhen
    split <;> rfl
  | setEnabled on =>
    cases done
    unfold setEnabled noteWhen
    split <;> rfl
  | setContention on =>
    cases done
    have changed := Scheduler.entry?_setContention s.scheduler on name
    exact View.ext rfl rfl rfl rfl changed rfl rfl rfl
  | setHealth target health =>
    cases done
    have seen := view_modifyTask s (f := fun task => { task with health })
      (fun _ => rfl) target name
    rw [setHealth, seen]
    simp only [Stage.order?]
    split <;> rfl
  | permit target =>
    cases done
    have seen := view_modifyTask s (f := Task.permit) (fun _ => rfl) target name
    rw [permit, seen]
    simp only [Stage.order?]
    split <;> rfl
  | advance ns =>
    cases done
    rfl
  | raise what => cases done

end Dispatcher

namespace Moment

variable {m m' : Moment} {move : Move} {name : String} {h : History Stage}

/-- Between two ticks nobody is going to do anything for a task but the workers. -/
theorem outlook_of_idle (idle : m.idle = true) (s : Dispatcher) :
    (m.withDispatcher s).outlook name = (s.view name).relax name := by
  have none : m.chores = [] := List.isEmpty_iff.mp idle
  simp only [outlook, withDispatcher, none, List.not_mem_nil, if_false]
  rfl

/-- A task that is registered sees itself, and no other sees it. -/
theorem outlook_enroll (idle : m.idle = true) {new : Task}
    (unregistered : new.name ∉ m.dispatcher.scheduler.names) (instant : Instant) :
    (m.withDispatcher
      { m.dispatcher with scheduler := m.dispatcher.scheduler.enroll new instant }).outlook name =
      (if new.name = name then (m.dispatcher.view name).order (.register (some new) instant)
        else m.dispatcher.view name).relax name := by
  rw [outlook_of_idle idle]
  congr 1
  by_cases same : new.name = name
  · subst same
    rw [if_pos rfl]
    have entry := Scheduler.entry?_enroll_self m.dispatcher.scheduler unregistered instant
    exact View.ext rfl rfl rfl rfl entry rfl rfl rfl
  · rw [if_neg same]
    exact Dispatcher.view_congr rfl ⟨rfl, rfl, rfl⟩
      (Scheduler.entry?_enroll_of_ne _ (Ne.symm same) instant) Iff.rfl rfl rfl

/-- A tick that begins is going to evaluate every task, if evaluation is enabled. -/
theorem outlook_beginTick (sound : m.Sound) (now : Instant) :
    (m.beginTick now).outlook name = ((m.dispatcher.view name).order (.tick now)).relax name := by
  have seen : (m.beginTick now).dispatcher.view name = m.dispatcher.view name :=
    m.dispatcher.view_opened name
  have ahead : .consider name ∈ m.dispatcher.agenda ↔
      m.dispatcher.scheduler.enabled = true ∧ name ∈ m.dispatcher.scheduler.names := by
    rw [← List.count_pos_iff, count_agenda sound.scheduler.distinct]
    split <;> simp_all
  have clear := owed_agenda m.dispatcher name
  have chores : (m.beginTick now).chores = m.dispatcher.agenda := rfl
  have instant : (m.beginTick now).now = now := rfl
  have silent : (m.dispatcher.view name).tell [] = m.dispatcher.view name := rfl
  have enabled : (m.dispatcher.view name).enabled = m.dispatcher.scheduler.enabled := rfl
  simp only [outlook, seen, chores, instant, clear, silent, ahead, View.order, enabled]
  by_cases registered : name ∈ m.dispatcher.scheduler.names
  · simp only [registered, and_true]
  · -- the evaluation of a task that is not registered comes to nothing
    have missing : (m.dispatcher.view name).entry = none :=
      Scheduler.entry?_eq_none_iff.mpr registered
    have nothing : (m.dispatcher.view name).evaluate now = m.dispatcher.view name := by
      rw [View.evaluate, missing]
    simp only [registered, and_false, nothing, ite_self]

/-- What is going to be seen of a task after something is done follows from what was seen before. -/
theorem outlook_order {task : Task → Prop} (sound : m.Sound) (order : move.Order task)
    (idle : m.idle = true) (made : m.step? move = some m') :
    m'.outlook name = ((m.dispatcher.view name).heed (Stage.order? ⟨m, move⟩ name)).relax name := by
  cases makes made with
  | @registered new instant idle unrefused unstarted unregistered =>
    rw [outlook_enroll idle unregistered]
    by_cases same : new.name = name
    · subst same
      simp only [Stage.order?, unrefused, and_self, if_true]
      rfl
    · simp only [Stage.order?, same, false_and, if_false]
      rfl
  | @refused new instant fault idle refused =>
    have unconcerned : Stage.order? ⟨m, .register new instant⟩ name = none := by
      cases new with
      | none => rfl
      | some new =>
        simp only [Stage.order?]
        rw [if_neg]
        rintro ⟨rfl, unrefused⟩
        exact Dispatcher.refusal?_of_error refused unrefused
    rw [unconcerned]
    exact outlook_of_idle idle m.dispatcher
  | started idle =>
    rw [outlook_of_idle idle, Dispatcher.view_start]
    rfl
  | @begun now idle => exact outlook_beginTick sound now
  | noted idle =>
    rw [outlook_of_idle idle]
    rfl
  | acted done => rw [outlook_of_idle idle, Dispatcher.view_act done m]
  | failed => exact outlook_of_idle idle m.dispatcher
  | _ => cases order

/-! ## Courses -/

/-- Things are done from outside, one after the other; each time the control thread finishes its tick
and the workers settle. -/
inductive Course (allowed : Move → Prop) (first : Moment) : History Stage → Moment → Prop
  | refl : Course allowed first [] first
  | step {h : History Stage} {m m₀ m' : Moment} {move : Move} (before : Course allowed first h m)
    (may : allowed move) (made : m.step? move = some m₀) (worked : Reaches Move.Inside m₀ m')
    (idle : m'.idle = true) (settled : m'.dispatcher.Settled) :
    Course allowed first (⟨m, move⟩ :: h) m'

/-- A course makes moves. -/
theorem Course.reaches {allowed : Move → Prop} {first : Moment} (course : Course allowed first h m) :
    Reaches (fun _ => True) first m := by
  induction course with
  | refl => exact .refl
  | step before may made worked idle settled ih =>
    exact (ih.step trivial made).trans (worked.mono fun _ _ => trivial)

/-- A moment of a course, with tasks of a kind only. -/
structure Rested (task : Task → Prop) (workers : Nat) (m : Moment) : Prop where
  sound : m.Sound
  staffed : m.dispatcher.scheduler.Staffed
  workers : m.dispatcher.scheduler.workers = workers
  counting : m.dispatcher.sink.hooks = []
  kind : ∀ e ∈ m.dispatcher.scheduler.entries, task e.task
  idle : m.idle = true
  settled : m.dispatcher.Settled

section

variable {task : Task → Prop} {workers : Nat} {m₀ : Moment}
  (closed : ∀ t t', task t → t'.spec = t.spec → task t')
include closed

/-- The moves of a tick change neither the number of workers nor the kind of the tasks. -/
theorem Reaches.crew {allowed : Move → Prop} (within : ∀ move, allowed move → move.Within task fun _ => True)
    (sound : m.Sound) (reached : Reaches allowed m m')
    (kind : ∀ e ∈ m.dispatcher.scheduler.entries, task e.task) :
    m'.dispatcher.scheduler.workers = m.dispatcher.scheduler.workers ∧
      m.dispatcher.scheduler.entries.length ≤ m'.dispatcher.scheduler.entries.length ∧
      ∀ e ∈ m'.dispatcher.scheduler.entries, task e.task := by
  induction reached with
  | refl => exact ⟨rfl, Nat.le_refl _, kind⟩
  | step before may made ih =>
    obtain ⟨workers, fewer, kind⟩ := ih
    have sound₁ := sound.of_reaches before
    obtain ⟨workers', fewer'⟩ := crew_step sound₁ made
    exact ⟨workers'.trans workers, fewer.trans fewer',
      kind_step closed sound₁ (within _ may) made kind⟩

variable (still : ∀ t, task t → t.body.work = 0)
include still

/-- What is done from outside leads to a steady moment. -/
theorem Rested.steady (rested : Rested task workers m) (order : move.Order task)
    (made : m.step? move = some m₀) : m₀.Steady := by
  have sound := sound_step rested.sound made
  have staffed := staffed_step rested.sound rested.staffed made
  have kind := kind_step closed rested.sound order.within made rested.kind
  have counting : m₀.dispatcher.sink.hooks = [] := by
    rcases sink_step made with same | ⟨key, counted⟩ | ⟨hook, rfl, _⟩
    · exact same ▸ rested.counting
    · exact counted ▸ rested.counting
    · cases order
  have timeless : m₀.dispatcher.scheduler.Timeless :=
    .inl fun e member => still e.task (kind e member)
  cases makes made with
  | begun idle =>
    exact .beginTick rested.sound rested.staffed rested.settled rested.counting
      (.inl fun e member => still e.task (rested.kind e member)) idle _
  | performed left done => cases order
  | taken taken => cases order
  | finished held ready => cases order
  | hooked => cases order
  | _ => exact .of_idle sound staffed counting timeless rested.idle

/-- A course leads from one rested moment to another. -/
theorem Rested.step {m' : Moment} (rested : Rested task workers m) (order : move.Order task)
    (made : m.step? move = some m₀) (worked : Reaches Move.Inside m₀ m') (idle : m'.idle = true)
    (settled : m'.dispatcher.Settled) : Rested task workers m' := by
  have steady := rested.steady closed still order made
  have steady' := (steady.turns worked).1
  have within : ∀ move, Move.Inside move → move.Within task fun _ => True :=
    fun _ => Move.Inside.within
  have kind := kind_step closed rested.sound order.within made rested.kind
  obtain ⟨workers', _, kind'⟩ := worked.crew closed within steady.sound kind
  constructor
  · exact steady'.sound
  · exact steady'.staffed
  · exact workers'.trans ((crew_step rested.sound made).1.trans rested.workers)
  · exact steady'.counting
  · exact kind'
  · exact idle
  · exact settled

end

theorem Rested.initial {task : Task → Prop} {workers : Nat} {scheduler : Scheduler}
    (created : Scheduler.create workers = .ok scheduler) : Rested task workers (initial scheduler) := by
  have sound := sound_initial created
  have here : Reaches (fun _ => True) (Moment.initial scheduler) (Moment.initial scheduler) := .refl
  have staffed := here.staffed created
  obtain ⟨_, rfl⟩ := Scheduler.eq_of_create created
  constructor
  · exact sound
  · exact staffed
  · rfl
  · rfl
  · simp [Moment.initial]
  · rfl
  · exact ⟨by simp [Moment.initial, Dispatcher.held], by simp [Moment.initial, Dispatcher.waiting]⟩

/-- If there is a worker for each task, nothing is left to be seen of a task in a moment of a course. -/
theorem Rested.outlook {task : Task → Prop} {workers : Nat} (rested : Rested task workers m)
    (enough : m.dispatcher.scheduler.entries.length ≤ workers) (name : String) :
    m.outlook name = m.dispatcher.view name := by
  have vacant := rested.settled.vacant rested.sound.scheduler rested.staffed
    (rested.workers.symm ▸ enough)
  exact outlook_of_settled rested.idle rested.settled (by simp [vacant])

section

variable {workers workers' : Nat} {scheduler scheduler' : Scheduler}

theorem Course.rested {task : Task → Prop}
    (closed : ∀ t t', task t → t'.spec = t.spec → task t')
    (still : ∀ t, task t → t.body.work = 0) (created : Scheduler.create workers = .ok scheduler)
    (course : Course (Move.Order task) (initial scheduler) h m) : Rested task workers m := by
  induction course with
  | refl => exact .initial created
  | step before order made worked idle settled ih =>
    exact ih.step closed still order made worked idle settled

/-- What is seen of a task follows from what was done, as far as it concerns the task. -/
theorem Course.view (created : Scheduler.create workers = .ok scheduler)
    (course : Course (Move.Order (Task.Meek name)) (initial scheduler) h m)
    (enough : m.dispatcher.scheduler.entries.length ≤ workers) :
    m.dispatcher.view name = View.after name (h.orders name) := by
  have closed : ∀ t t', Task.Meek name t → t'.spec = t.spec → Task.Meek name t' :=
    fun _ _ => Task.Meek.congr
  have still : ∀ t, Task.Meek name t → t.body.work = 0 := fun _ meek => meek.1
  induction course with
  | refl =>
    obtain ⟨_, rfl⟩ := Scheduler.eq_of_create created
    rfl
  | @step h m m₀ m' move before order made worked idle settled ih =>
    have rested := before.rested closed still created
    have rested' := rested.step closed still order made worked idle settled
    have steady := rested.steady closed still order made
    have kind := kind_step closed rested.sound order.within made rested.kind
    have within : ∀ move, Move.Inside move → move.Within (Task.Meek name) fun _ => True :=
      fun _ => Move.Inside.within
    have fewer := (crew_step rested.sound made).2.trans
      (worked.crew closed within steady.sound kind).2.1
    have enough₁ := fewer.trans enough
    have goes : m₀.Goes name := fun e member other _ _ => (kind e member).2 other
    have motionless := still_of_work fun e member => (kind e member).1
    have seen : m'.dispatcher.view name =
        ((m.dispatcher.view name).heed (Stage.order? ⟨m, move⟩ name)).relax name := by
      rw [← rested'.outlook enough name, steady.outlook motionless goes worked,
        outlook_order rested.sound order rested.idle made]
    rw [seen]
    cases concerns : Stage.order? ⟨m, move⟩ name with
    | none =>
      have unseen : History.orders (⟨m, move⟩ :: h) name = h.orders name := by
        simp [History.orders, concerns]
      have nothing : (m.dispatcher.view name).relax name = m.dispatcher.view name := by
        rw [← outlook_of_idle rested.idle m.dispatcher]
        exact rested.outlook enough₁ name
      rw [unseen, ← ih enough₁]
      exact nothing
    | some order =>
      have heeded : History.orders (⟨m, move⟩ :: h) name = order :: h.orders name := by
        simp [History.orders, concerns]
      rw [heeded, View.after, List.foldr_cons, ← View.after, ← ih enough₁]
      rfl

/-- Two schedulers hold the same of a task. -/
structure Alike (name : String) (m m' : Moment) : Prop where
  /-- Its due time, its health, its mark, its start time, its statistics and the entries of its body are
  the same. -/
  entry : m.dispatcher.scheduler.entry? name = m'.dispatcher.scheduler.entry? name
  /-- The same events were recorded for it, in the same order. -/
  events : (m.dispatcher.view name).events = (m'.dispatcher.view name).events
  /-- They were counted as often. -/
  counts : ∀ event, m.dispatcher.sink.tally.count ⟨event, name⟩ =
    m'.dispatcher.sink.tally.count ⟨event, name⟩

/-- Two schedulers with a worker for each task, in which no body moves the clock and no task but one may
stop a tick, hold the same of this task after everything that is done, if the same was done as far as it
concerns this task. -/
theorem alike_of_same_orders {h' : History Stage} (created : Scheduler.create workers = .ok scheduler)
    (created' : Scheduler.create workers' = .ok scheduler')
    (course : Course (Move.Order (Task.Meek name)) (initial scheduler) h m)
    (course' : Course (Move.Order (Task.Meek name)) (initial scheduler') h' m')
    (enough : m.dispatcher.scheduler.entries.length ≤ workers)
    (enough' : m'.dispatcher.scheduler.entries.length ≤ workers')
    (same : h.orders name = h'.orders name) : Alike name m m' := by
  have seen := course.view created enough
  have seen' := course'.view created' enough'
  have alike : m.dispatcher.view name = m'.dispatcher.view name := by rw [seen, seen', same]
  constructor
  · exact congrArg View.entry alike
  · exact congrArg View.events alike
  · intro event
    rw [course.reaches.counted created, course'.reaches.counted created',
      ← Dispatcher.count_events_view, ← Dispatcher.count_events_view, alike]

end

/-! ## Two sample courses

In the first one the gated task is alone.  In the second one it has a neighbour, which is registered
before it and muted. -/

/-- Carries out a course: what is done, each time with the moves that follow up to the next rest. -/
def pace (run : History Stage × Moment) : List (Move × List Move) →
    Option (History Stage × Moment)
  | [] => some run
  | (move, moves) :: rest =>
    (run.2.step? move).bind fun next => (follow ([], next) moves).bind fun last =>
      if last.2.idle = true ∧ last.2.dispatcher.Settled then
        pace (⟨run.2, move⟩ :: run.1, last.2) rest
      else none

theorem course_of_pace {allowed : Move → Prop} {first : Moment} {h' : History Stage}
    {steps : List (Move × List Move)} (course : Course allowed first h m)
    (may : ∀ step ∈ steps, allowed step.1 ∧ ∀ move ∈ step.2, move.Inside)
    (paced : pace (h, m) steps = some (h', m')) : Course allowed first h' m' := by
  induction steps generalizing h m with
  | nil =>
    cases paced
    exact course
  | cons step rest ih =>
    obtain ⟨move, moves⟩ := step
    obtain ⟨next, made, paced⟩ := Option.bind_eq_some_iff.mp paced
    obtain ⟨⟨_, last⟩, followed, paced⟩ := Option.bind_eq_some_iff.mp paced
    split at paced
    · rename_i rests
      have allowed := may (move, moves) List.mem_cons_self
      have worked := (passes_of_follow .refl allowed.2 followed).reaches
      exact ih (.step course allowed.1 made worked rests.1 rests.2)
        (fun step member => may step (List.mem_cons_of_mem _ member)) paced
    · cases paced

namespace Duo

def alone : List (Move × List Move) :=
  [(.register (some Sample.gated) .epoch, []), (.act (.setEnabled true), []),
    (.tick ⟨1000000000⟩, [.chore, .take]), (.tick ⟨2000000000⟩, [.chore, .chore, .chore, .chore])]

def together : List (Move × List Move) :=
  [(.register (some Sample.brief) .epoch, []), (.register (some Sample.gated) .epoch, []),
    (.act (.setHealth "brief" .muted), []), (.act (.setEnabled true), []),
    (.tick ⟨1000000000⟩, [.chore, .chore, .chore, .take]),
    (.tick ⟨2000000000⟩, [.chore, .chore, .chore, .chore, .chore, .chore])]

/-- A scheduler with two workers. -/
def pair : Scheduler := { workers := 2, workers_pos := Nat.two_pos }

/-- Where a course leads, and what was done in it. -/
def outcome (scheduler : Scheduler) (steps : List (Move × List Move)) : History Stage × Moment :=
  (pace ([], initial scheduler) steps).getD ([], initial scheduler)

theorem course {scheduler : Scheduler} {steps : List (Move × List Move)} {allowed : Move → Prop}
    (may : ∀ step ∈ steps, allowed step.1 ∧ ∀ move ∈ step.2, move.Inside)
    (carried : (pace ([], initial scheduler) steps).isSome = true) :
    Course allowed (initial scheduler) (outcome scheduler steps).1 (outcome scheduler steps).2 := by
  obtain ⟨last, paced⟩ := Option.isSome_iff_exists.mp carried
  refine course_of_pace .refl may ?_
  rw [outcome, paced, Option.getD_some]

end Duo

/-- In both sample courses the gated task is found in progress at its second slot. -/
theorem alike_of_same_orders_sample :
    let first := Duo.outcome Sample.scheduler Duo.alone
    let second := Duo.outcome Duo.pair Duo.together
    (first.2.dispatcher.scheduler.task? "gated").map (·.health) = some .slow ∧
      Alike "gated" first.2 second.2 := by
  have meek : Task.Meek "gated" Sample.gated ∧ Task.Meek "gated" Sample.brief := by
    unfold Task.Meek
    decide +kernel
  refine ⟨by decide +kernel, ?_⟩
  refine alike_of_same_orders Sample.created (rfl : Scheduler.create 2 = .ok Duo.pair)
    (Duo.course ?_ (by decide +kernel)) (Duo.course ?_ (by decide +kernel)) (by decide +kernel)
    (by decide +kernel) (by decide +kernel)
  · simp [Duo.alone, Move.Order, Move.Inside, meek]
  · simp [Duo.together, Move.Order, Move.Inside, meek]

end Moment

end Cadence

import Cadence.Proofs.Confluence

/-!
What a tick will come to for one task.

A `View` is what a dispatcher holds about one task, with the clock and the controls.  When a tick begins
and the workers have settled, the view in the end is known: the task is evaluated, the events of its
evaluation are recorded, and its job is taken and finished if it can be (`Moment.outlook`).  No chore and
no step of a worker changes this prospect (`Moment.outlook_step`), whatever other tasks there are, as
long as none of them stops the tick.
-/

namespace Cadence

/-- What a dispatcher holds about the task of one name, with the clock and the controls. -/
@[ext] structure View where
  clock : Instant
  mode : Mode
  enabled : Bool
  contention : Bool
  /-- The registered task and its due time. -/
  entry : Option Entry
  /-- Whether a job of the task waits. -/
  waits : Bool
  /-- The run of the task that a worker holds. -/
  run : Option Run
  /-- The events that were recorded for it. -/
  events : History Event

/-- The event of a key, if it is an event of the task of a name. -/
def Tally.Key.of? (name : String) (key : Key) : Option Event :=
  if key.name = name then some key.event else none

/-- What a dispatcher holds about the task of a name. -/
def Dispatcher.view (s : Dispatcher) (name : String) : View where
  clock := s.clock
  mode := s.scheduler.mode
  enabled := s.scheduler.enabled
  contention := s.scheduler.contention
  entry := s.scheduler.entry? name
  waits := name ∈ s.waiting
  run := s.held.find? (·.name = name)
  events := s.sink.events.filterMap (Tally.Key.of? name)

namespace View

/-- Events of the task are recorded. -/
def tell (v : View) (events : List Event) : View := { v with events := events.reverse ++ v.events }

/-- The task is evaluated, and what is to be recorded of it is recorded. -/
def evaluate (v : View) (now : Instant) : View :=
  match v.entry with
  | none => v
  | some e =>
    tell { v with
      entry := some ((e.ruling v.mode now).change e)
      waits := v.waits || (e.ruling v.mode now).starts }
      (((e.ruling v.mode now).result.next []).filterMap (Chore.owes? e.task.name))

/-- The job of the task is taken, if it waits. -/
def enter (v : View) (name : String) : View :=
  if v.waits then
    { v with
      waits := false
      entry := v.entry.map fun e => { e with task := e.task.enter }
      run := some ⟨name, v.clock⟩ }
  else v

/-- Whether a run of the task can end. -/
def ready (v : View) (run : Run) : Bool :=
  v.entry.any fun e => e.task.body.ready run.began v.clock e.task.permits

/-- The run of the task is finished, if it can be. -/
def leave (v : View) : View :=
  match v.run with
  | none => v
  | some run =>
    if v.ready run then
      { v with
        run := none
        entry := v.entry.map fun e => { e with task := e.task.complete run.began v.clock } }
    else v

/-- The workers do what they can for the task. -/
def relax (v : View) (name : String) : View := (v.enter name).leave

variable (v : View) (name : String) (events : List Event)

theorem tell_append (others : List Event) :
    (v.tell events).tell others = v.tell (events ++ others) := by
  simp [tell]

theorem tell_enter : (v.tell events).enter name = (v.enter name).tell events := by
  unfold enter
  have waits : (v.tell events).waits = v.waits := rfl
  rw [waits]
  split <;> rfl

theorem tell_leave : (v.tell events).leave = v.leave.tell events := by
  unfold leave
  have held : (v.tell events).run = v.run := rfl
  rw [held]
  cases v.run with
  | none => rfl
  | some run =>
    have ready : (v.tell events).ready run = v.ready run := rfl
    simp only [ready]
    split <;> rfl

/-- A job that is taken no longer waits. -/
theorem enter_enter : (v.enter name).enter name = v.enter name := by
  cases waits : v.waits <;> simp [enter, waits]

theorem enter_of_not_waits (idle : v.waits = false) : v.enter name = v := by
  simp [enter, idle]

/-- What is left after a run was finished is not finished again. -/
theorem leave_leave : v.leave.leave = v.leave := by
  unfold leave
  cases held : v.run with
  | none => simp [held]
  | some run =>
    cases ready : v.ready run <;> simp [held, ready]

theorem waits_leave : v.leave.waits = v.waits := by
  unfold leave
  split
  · rfl
  · split <;> rfl

end View

namespace Entry

variable (e : Entry) (mode : Mode) (now : Instant)

/-- A ruling has the tick record events of its own task only. -/
theorem owed_ruling_of_ne {name : String} (different : name ≠ e.task.name) :
    ((e.ruling mode now).result.next []).filterMap (Chore.owes? name) = [] := by
  have quiet : ∀ event, Chore.owes? name (.record event e.task.name) = none := by
    intro event
    simp [Chore.owes?, different.symm]
  unfold ruling
  split
  · rfl
  split
  · simp [Chore.Result.next, quiet]
  split
  · simp [Chore.Result.next, quiet]
  split
  · split
    · rfl
    · simp [Chore.Result.next, Dispatcher.owed_skipChores, different.symm]
  · rfl

/-- A ruling stops the tick, or lets it go on. -/
theorem ruling_cases : (e.ruling mode now).result = .stop ∨
    ∃ further, (e.ruling mode now).result = .proceed further := by
  unfold ruling
  split
  · exact .inr ⟨_, rfl⟩
  split
  · exact .inr ⟨_, rfl⟩
  split
  · exact .inr ⟨_, rfl⟩
  split
  · split
    · exact .inl rfl
    · exact .inr ⟨_, rfl⟩
  · exact .inr ⟨_, rfl⟩

end Entry

namespace Dispatcher

variable {s u : Dispatcher} {name : String} {move : Move} {l : Labour}

/-- A view by its parts, the controls being those of before. -/
theorem view_congr (clock : u.clock = s.clock)
    (controls : u.scheduler.mode = s.scheduler.mode ∧ u.scheduler.enabled = s.scheduler.enabled ∧
      u.scheduler.contention = s.scheduler.contention)
    (entry : u.scheduler.entry? name = s.scheduler.entry? name)
    (waits : name ∈ u.waiting ↔ name ∈ s.waiting)
    (run : u.held.find? (·.name = name) = s.held.find? (·.name = name))
    (events : u.sink.events = s.sink.events) : u.view name = s.view name := by
  obtain ⟨mode, enabled, contention⟩ := controls
  simp only [view, clock, mode, enabled, contention, entry, waits, run, events]

/-- The events that a task sees are those of its name. -/
theorem count_events_view (s : Dispatcher) (name : String) (event : Event) :
    (s.view name).events.count event = s.sink.events.count ⟨event, name⟩ := by
  simp only [view]
  induction s.sink.events with
  | nil => rfl
  | cons key rest ih =>
    obtain ⟨other, target⟩ := key
    by_cases same : target = name
    · subst same
      simp [Tally.Key.of?, List.count_cons, ih]
    · simp [Tally.Key.of?, ih, same]

/-! ## What workers do for one task, and for the others -/

theorem find?_erase_of_ne (runs : List Run) {run : Run} (different : run.name ≠ name) :
    (runs.erase run).find? (·.name = name) = runs.find? (·.name = name) := by
  induction runs with
  | nil => rfl
  | cons first rest ih =>
    by_cases same : first = run
    · subst same
      simp [different]
    · rw [List.erase_cons_tail (by simpa using same), List.find?_cons, List.find?_cons, ih]

/-- The work on one task is not seen by another. -/
theorem view_does_of_ne (toils : s.Toils move l) (different : name ≠ l.name) (still : l.time = 0) :
    (s.does l).view name = s.view name := by
  obtain ⟨p, present, proper⟩ := toils.proper
  apply view_congr
  · exact clock_does still
  · exact ⟨rfl, rfl, rfl⟩
  · exact entry?_does_of_ne proper.keeps different
  · cases toils with
    | @take other q offers =>
      have same : q = p := Option.some.inj (offers.present.symm.trans present)
      subst same
      have front := offers.front
      have other : name ≠ other := different
      simp only [waiting, does, entering, present, Option.map_some, Option.getD_some]
      rw [front]
      simp [other]
    | finish held ready => simp [waiting, does, finishing, present, Pool.release]
  · cases toils with
    | @take other q offers =>
      have other : other ≠ name := different.symm
      simp [Dispatcher.held, does, entering, present, List.find?_append, other]
    | @finish run held ready =>
      have other : run.name ≠ name := different.symm
      simp [Dispatcher.held, does, finishing, present, Pool.release, find?_erase_of_ne, other]
  · rfl

/-- Unfinished jobs are of different tasks. -/
theorem outstanding_parts (sound : s.scheduler.Sound) : s.waiting.Nodup ∧
    (s.held.map (·.name)).Nodup ∧ ∀ name ∈ s.waiting, ∀ run ∈ s.held, run.name ≠ name := by
  have once := outstanding_nodup sound
  rw [outstanding_eq] at once
  obtain ⟨waits, held, apart⟩ := List.nodup_append.mp once
  exact ⟨waits, held, fun name waiting run member =>
    (apart name waiting run.name (List.mem_map_of_mem member)).symm⟩

/-- A task whose job is taken sees its body entered. -/
theorem view_does_entering (sound : s.scheduler.Sound) {p : Pool String Run}
    (offers : s.Offers name p) (still : (s.entering name).time = 0) :
    (s.does (s.entering name)).view name = (s.view name).enter name := by
  have waits := offers.waits
  obtain ⟨once, _, apart⟩ := outstanding_parts sound
  have taken : (s.view name).waits = true := by simpa [view] using waits
  have gone : name ∉ p.backlog.tail := by
    simp only [waiting, offers.present, Option.map_some, Option.getD_some] at once
    rw [offers.front] at once
    exact (List.nodup_cons.mp once).1
  have unheld : p.held.find? (·.name = name) = none := by
    rw [List.find?_eq_none]
    intro run member
    have held : run ∈ s.held := by simpa [Dispatcher.held, offers.present] using member
    simpa using apart name waits run held
  have entered := entry?_does_self (s := s) offers.proper.keeps
  rw [View.enter, if_pos taken]
  ext1
  · exact clock_does still
  · rfl
  · rfl
  · rfl
  · exact entered
  · simpa [view, waiting, does, offers.present, entering] using gone
  · simp [view, Dispatcher.held, does, offers.present, entering, List.find?_append, unheld]
  · rfl

theorem find?_held (sound : s.scheduler.Sound) {run : Run} (held : run ∈ s.held) :
    s.held.find? (·.name = run.name) = some run := by
  obtain ⟨_, once, _⟩ := outstanding_parts sound
  have some : (s.held.find? (·.name = run.name)).isSome :=
    List.find?_isSome.mpr ⟨run, held, by simp⟩
  obtain ⟨first, found⟩ := Option.isSome_iff_exists.mp some
  have named : first.name = run.name := by simpa using List.find?_some found
  have same := List.inj_on_of_nodup_map once (List.mem_of_find?_eq_some found) held named
  rw [found, same]

theorem ready_view (run : Run) : (s.view run.name).ready run = s.ready run := by
  simp [view, View.ready, ready, Scheduler.task?, Option.any_map]

/-- A task whose run is finished sees it completed. -/
theorem view_does_finishing (sound : s.scheduler.Sound) {run : Run} (held : run ∈ s.held)
    (ready : s.ready run = true) :
    (s.does (s.finishing run)).view run.name = (s.view run.name).leave := by
  obtain ⟨p, present, within⟩ := pool_of_held held
  have found := find?_held sound held
  have holds : (s.view run.name).run = some run := found
  obtain ⟨_, once, _⟩ := outstanding_parts sound
  have gone : (p.held.erase run).find? (·.name = run.name) = none := by
    rw [List.find?_eq_none]
    intro other member
    have names : p.held.Nodup := by
      have distinct : (p.held.map (·.name)).Nodup := by
        simpa [Dispatcher.held, present] using once
      exact distinct.of_map _
    obtain ⟨different, old⟩ := (names.mem_erase_iff).mp member
    have other' : other ∈ s.held := by simpa [Dispatcher.held, present] using old
    simp only [decide_eq_true_eq]
    exact fun same => different (List.inj_on_of_nodup_map once other' held same)
  have proper := s.proper_finishing run p
  have completed := entry?_does_self (s := s) proper.keeps
  rw [View.leave, holds]
  simp only [ready_view, ready, if_true]
  ext1
  · exact clock_does rfl
  · rfl
  · rfl
  · rfl
  · exact completed
  · simp [view, waiting, does, present, finishing, Pool.release]
  · simpa [view, Dispatcher.held, does, present, finishing, Pool.release] using gone
  · rfl

/-! ## What chores do for one task, and for the others -/

section

variable {p : Pool String Run} (present : s.scheduler.pool = some p) (sound : s.scheduler.Sound)
  (now : Instant)
include present sound

/-- A ruling on the task of a name can be carried out. -/
theorem consider_of_found {e : Entry} (found : s.scheduler.entry? name = some e) :
    s.perform now (.consider name) = ((e.ruling s.scheduler.mode now).result, { s with
      scheduler := { s.scheduler.modifyEntry name (e.ruling s.scheduler.mode now).change with
        pool := some { p with backlog := p.backlog ++
          if (e.ruling s.scheduler.mode now).starts then [name] else [] } }
      log := (e.ruling s.scheduler.mode now).lines ++ s.log }) := by
  simp only [perform, consider_eq, found]
  exact carry_eq present (sound.running p present) name e s.scheduler.mode fun free =>
    sound.room found free present

/-- The evaluation of a task is not seen by another. -/
theorem view_consider_of_ne {target : String} (different : name ≠ target) :
    (s.perform now (.consider target)).2.view name = s.view name := by
  cases found : s.scheduler.entry? target with
  | none => simp [perform, consider_eq, found]
  | some e =>
    rw [consider_of_found present sound now found]
    apply view_congr
    · rfl
    · exact ⟨rfl, rfl, rfl⟩
    · exact Scheduler.entry?_modifyEntry_of_ne _ different (e.name_ruling_change s.scheduler.mode now)
    · simp only [waiting, present, Option.map_some, Option.getD_some, List.mem_append]
      split <;> simp [different]
    · simp [held, present]
    · rfl

/-- A task that is evaluated sees what comes of it, once its events are recorded. -/
theorem view_consider_self :
    ((s.perform now (.consider name)).2.view name).tell
      (((s.perform now (.consider name)).1.next []).filterMap (Chore.owes? name)) =
    (s.view name).evaluate now := by
  cases found : s.scheduler.entry? name with
  | none =>
    have seen : (s.view name).entry = none := found
    simp only [perform, consider_eq, found, View.evaluate, seen]
    rfl
  | some e =>
    have seen : (s.view name).entry = some e := found
    have named : e.task.name = name := Scheduler.entry?_name found
    have changed := Scheduler.entry?_modifyEntry_self s.scheduler name
      (e.name_ruling_change s.scheduler.mode now)
    rw [found, Option.map_some] at changed
    simp only [consider_of_found present sound now found, View.evaluate, seen, named]
    have mode : (s.view name).mode = s.scheduler.mode := rfl
    rw [mode]
    congr 1
    ext1
    · rfl
    · rfl
    · rfl
    · rfl
    · exact changed
    · cases starts : (e.ruling s.scheduler.mode now).starts <;> simp [view, waiting, present]
    · simp [view, held, present]
    · rfl

end

/-- An event of a task is seen by that task. -/
theorem view_record (s : Dispatcher) (now : Instant) (event : Event) (target name : String) :
    (s.perform now (.record event target)).2.view name =
      (s.view name).tell ((Chore.owes? name (.record event target)).toList) := by
  have recorded : (s.perform now (.record event target)).2.sink.events =
      ⟨event, target⟩ :: s.sink.events := rfl
  ext1
  · rfl
  · rfl
  · rfl
  · rfl
  · rfl
  · rfl
  · rfl
  · simp only [view, recorded, View.tell, Chore.owes?, List.filterMap_cons, Tally.Key.of?]
    by_cases same : target = name <;> simp [same]

/-- A chore that is not the evaluation of the task is seen by it if it records an event of it. -/
theorem view_perform {p : Pool String Run} (present : s.scheduler.pool = some p)
    (sound : s.scheduler.Sound) (now : Instant) {c : Chore}
    (own : ∀ action, c ≠ .act action) (other : c ≠ .consider name) :
    (s.perform now c).2.view name = (s.view name).tell (c.owes? name).toList := by
  cases c with
  | consider target =>
    exact view_consider_of_ne present sound now fun same => other (congrArg Chore.consider same.symm)
  | record event target => exact view_record s now event target name
  | note line => rfl
  | act action => exact absurd rfl (own action)

end Dispatcher

/-! ## The prospect of a tick -/

namespace Moment

variable {m m' : Moment} {move : Move} {name : String}

/-- What will be seen of a task when the tick is over and the workers have settled. -/
def outlook (m : Moment) (name : String) : View :=
  let told := (m.dispatcher.view name).tell (m.chores.filterMap (Chore.owes? name))
  (if .consider name ∈ m.chores then told.evaluate m.now else told).relax name

/-- No other task stops the tick: none that is still to be evaluated is critical and in progress. -/
def Goes (m : Moment) (name : String) : Prop :=
  ∀ e ∈ m.dispatcher.scheduler.entries, e.task.name ≠ name → .consider e.task.name ∈ m.chores →
    e.task.inProgress = true → e.task.has .critical = false

/-- After a chore that is not the evaluation of the task the tick goes on, with nothing more to do for
the task. -/
theorem goes_on (steady : m.Steady) (goes : m.Goes name) {c : Chore} {rest : List Chore}
    (left : m.chores = c :: rest) (other : c ≠ .consider name) : ∃ further,
      (m.dispatcher.perform m.now c).1 = .proceed further ∧
        further.filterMap (Chore.owes? name) = [] := by
  obtain ⟨p, present⟩ := Option.isSome_iff_exists.mp (steady.sound.started (by simp [left]))
  cases c with
  | consider target =>
    have different : name ≠ target := fun same => other (congrArg Chore.consider same.symm)
    cases found : m.dispatcher.scheduler.entry? target with
    | none => exact ⟨[], by simp [Dispatcher.perform, Dispatcher.consider_eq, found], rfl⟩
    | some e =>
      have named : e.task.name = target := Scheduler.entry?_name found
      have owed := e.owed_ruling_of_ne m.dispatcher.scheduler.mode m.now (named ▸ different)
      rw [Dispatcher.consider_of_found present steady.sound.scheduler m.now found]
      rcases e.ruling_cases m.dispatcher.scheduler.mode m.now with stops | ⟨further, proceeds⟩
      · obtain ⟨busy, critical⟩ := e.busy_of_stop _ _ stops
        have harmless := goes e (Scheduler.mem_of_found found) (named ▸ different.symm)
          (by simp [left, named]) busy
        rw [critical] at harmless
        cases harmless
      · rw [proceeds, Chore.Result.next, List.append_nil] at owed
        exact ⟨further, proceeds, owed⟩
  | record event target =>
    have silent : ∀ key, (m.dispatcher.sink.record key).actions key = [] := by
      intro key
      simp [Sink.actions, Sink.record, steady.counting]
    exact ⟨[], by simp [Dispatcher.perform, Dispatcher.send, silent], rfl⟩
  | note line => exact ⟨[], rfl, rfl⟩
  | act action => exact absurd rfl (steady.own (show .act action ∈ m.chores by simp [left]) action)

/-- After the evaluation of a task nothing else is left to do for it. -/
theorem clear_of_evaluation (steady : m.Steady) {rest : List Chore}
    (left : m.chores = .consider name :: rest) :
    .consider name ∉ rest ∧ rest.filterMap (Chore.owes? name) = [] := by
  have once := steady.once name
  rw [left, List.count_cons_self] at once
  refine ⟨List.count_eq_zero.mp (by omega), ?_⟩
  -- only evaluations are left, and these record nothing by themselves
  apply List.filterMap_eq_nil_iff.mpr
  intro d member
  have ordered := List.pairwise_cons.mp (left ▸ steady.sound.ordered)
  have last := ordered.1 d member rfl
  cases d <;> simp_all [Chore.level, Chore.owes?]

/-- The evaluation of a task does not change the outlook for it. -/
theorem outlook_evaluation (steady : m.Steady) (made : m.step? .chore = some m') {rest : List Chore}
    (left : m.chores = .consider name :: rest) : m'.outlook name = m.outlook name := by
  rw [step_chore left] at made
  cases made
  obtain ⟨p, present⟩ := Option.isSome_iff_exists.mp (steady.sound.started (by simp [left]))
  obtain ⟨gone, clear⟩ := clear_of_evaluation steady left
  have absent : .consider name ∉ (m.dispatcher.perform m.now (.consider name)).1.next rest := by
    have fewer := Dispatcher.count_next_le
      (show m.dispatcher.perform m.now (.consider name) = (_, _) from rfl) rest name
    exact List.count_eq_zero.mp (Nat.le_zero.mp (fewer.trans (List.count_eq_zero.mpr gone).le))
  have owed : ((m.dispatcher.perform m.now (.consider name)).1.next rest).filterMap
      (Chore.owes? name) =
      ((m.dispatcher.perform m.now (.consider name)).1.next []).filterMap (Chore.owes? name) := by
    cases (m.dispatcher.perform m.now (.consider name)).1 <;> simp [Chore.Result.next, clear]
  have silent : (m.dispatcher.view name).tell [] = m.dispatcher.view name := rfl
  simp only [outlook, if_neg absent, owed, left, List.mem_cons_self, if_true,
    Dispatcher.view_consider_self present steady.sound.scheduler, List.filterMap_cons, Chore.owes?,
    clear, silent]

/-- No other chore changes the outlook for a task. -/
theorem outlook_other (steady : m.Steady) (goes : m.Goes name) (made : m.step? .chore = some m')
    {c : Chore} {rest : List Chore} (left : m.chores = c :: rest) (other : c ≠ .consider name) :
    m'.outlook name = m.outlook name := by
  rw [step_chore left] at made
  cases made
  obtain ⟨p, present⟩ := Option.isSome_iff_exists.mp (steady.sound.started (by simp [left]))
  obtain ⟨further, result, owed⟩ := goes_on steady goes left other
  have seen := Dispatcher.view_perform present steady.sound.scheduler m.now
    (steady.own (show c ∈ m.chores by simp [left])) other
  have fewer := Dispatcher.count_next_le
    (show m.dispatcher.perform m.now c = (.proceed further, _) from Prod.ext result rfl) rest name
  have ahead : .consider name ∈ further ++ rest ↔ .consider name ∈ c :: rest := by
    rw [Chore.Result.next] at fewer
    constructor
    · intro member
      have positive := List.count_pos_iff.mpr member
      exact List.mem_cons_of_mem c (List.count_pos_iff.mp (by omega))
    · intro member
      exact List.mem_append_right _ ((List.mem_cons.mp member).resolve_left (Ne.symm other))
  have told : (c :: rest).filterMap (Chore.owes? name) =
      (c.owes? name).toList ++ rest.filterMap (Chore.owes? name) := by
    cases owes : c.owes? name <;> simp [owes]
  simp only [outlook, seen, result, Chore.Result.next, left, told, ahead, List.filterMap_append,
    owed, View.tell_append, List.nil_append]

/-- No chore changes the outlook for a task. -/
theorem outlook_chore (steady : m.Steady) (goes : m.Goes name) (made : m.step? .chore = some m') :
    m'.outlook name = m.outlook name := by
  cases left : m.chores with
  | nil => simp [step?, doChore?, left] at made
  | cons c rest =>
    by_cases evaluated : c = .consider name
    · exact outlook_evaluation steady made (evaluated ▸ left)
    · exact outlook_other steady goes made left evaluated

/-- No work of a worker changes the outlook for a task. -/
theorem outlook_work (steady : m.Steady) (still : ∀ name, (m.dispatcher.entering name).time = 0)
    {l : Labour} (toils : m.dispatcher.Toils move l) :
    (m.withDispatcher (m.dispatcher.does l)).outlook name = m.outlook name := by
  have sound := steady.sound.scheduler
  have apart := steady.apart toils
  have instant : l.time = 0 := by
    cases toils with
    | take offers => exact still _
    | finish held ready => rfl
  by_cases other : name = l.name
  · subst other
    cases toils with
    | @take target p offers =>
      have seen := Dispatcher.view_does_entering sound offers (still _)
      have apart : .consider target ∉ m.chores := apart
      have named : (m.dispatcher.entering target).name = target := rfl
      simp only [outlook, withDispatcher, named, if_neg apart, View.relax, seen, View.tell_enter,
        View.enter_enter]
    | @finish run held ready =>
      have seen := Dispatcher.view_does_finishing sound held ready
      have apart : .consider run.name ∉ m.chores := apart
      have named : (m.dispatcher.finishing run).name = run.name := rfl
      have unwaiting : (m.dispatcher.view run.name).waits = false := by
        obtain ⟨_, _, apart⟩ := Dispatcher.outstanding_parts sound
        simpa [Dispatcher.view] using fun waits => apart run.name waits run held rfl
      have unwaiting' : (m.dispatcher.view run.name).leave.waits = false := by
        rw [View.waits_leave, unwaiting]
      simp only [outlook, withDispatcher, named, if_neg apart, View.relax, seen, View.tell_enter,
        View.enter_of_not_waits _ _ unwaiting, View.enter_of_not_waits _ _ unwaiting',
        View.tell_leave, View.leave_leave]
  · simp only [outlook, withDispatcher, Dispatcher.view_does_of_ne toils other instant]

/-- A move of a tick is a chore or the work of a worker. -/
theorem inside_cases (inside : move.Inside) (made : m.step? move = some m') :
    move = .chore ∨ ∃ l, m.dispatcher.Toils move l ∧ m' = m.withDispatcher (m.dispatcher.does l) := by
  cases move with
  | chore => exact .inl rfl
  | take => exact .inr (toils_of_step made (.inl rfl))
  | finish run => exact .inr (toils_of_step made (.inr ⟨run, rfl⟩))
  | _ => cases inside

/-- The moves of a tick leave the bodies alone. -/
theorem time_entering_step (steady : m.Steady) (inside : move.Inside) (made : m.step? move = some m')
    (name : String) : (m'.dispatcher.entering name).time = (m.dispatcher.entering name).time := by
  rcases inside_cases inside made with rfl | ⟨l, toils, rfl⟩
  · cases makes made with
    | @performed c rest result t left done =>
      obtain ⟨p, present⟩ := Option.isSome_iff_exists.mp (steady.sound.started (by simp [left]))
      have own := steady.own (show c ∈ m.chores by simp [left])
      have spares := Dispatcher.perform_spares present steady.sound.scheduler own done
      simp only [Dispatcher.entering_congr spares.clock (spares.gear name)]
  · obtain ⟨p, _, proper⟩ := toils.proper
    exact Dispatcher.time_entering_does proper name

/-- A task that is still to be evaluated has not changed. -/
theorem entry?_step (steady : m.Steady) (inside : move.Inside) (made : m.step? move = some m')
    (ahead : .consider name ∈ m'.chores) :
    .consider name ∈ m.chores ∧
      m'.dispatcher.scheduler.entry? name = m.dispatcher.scheduler.entry? name := by
  rcases inside_cases inside made with rfl | ⟨l, toils, rfl⟩
  · cases makes made with
    | @performed c rest result t left done =>
      obtain ⟨p, present⟩ := Option.isSome_iff_exists.mp (steady.sound.started (by simp [left]))
      have own := steady.own (show c ∈ m.chores by simp [left])
      have fewer := Dispatcher.count_next_le done rest name
      have positive := List.count_pos_iff.mpr ahead
      have member : .consider name ∈ rest := List.count_pos_iff.mp (by simp only at positive; omega)
      have other : c ≠ .consider name := by
        rintro rfl
        have once := steady.once name
        rw [left, List.count_cons_self] at once
        have again := List.count_pos_iff.mpr member
        omega
      have seen := Dispatcher.view_perform present steady.sound.scheduler m.now
        own other
      rw [done] at seen
      exact ⟨by simp [left, member], congrArg View.entry seen⟩
  · have other : name ≠ l.name := by
      rintro rfl
      exact steady.apart toils ahead
    obtain ⟨p, _, proper⟩ := toils.proper
    exact ⟨ahead, Dispatcher.entry?_does_of_ne proper.keeps other⟩

/-- If no other task stops the tick, none does later. -/
theorem goes_step (steady : m.Steady) (goes : m.Goes name) (inside : move.Inside)
    (made : m.step? move = some m') : m'.Goes name := by
  intro e member other ahead
  have sound := sound_step steady.sound made
  have found := Scheduler.entry?_of_mem sound.scheduler.distinct member
  obtain ⟨before, same⟩ := entry?_step steady inside made ahead
  rw [same] at found
  exact goes e (Scheduler.mem_of_found found) other before

/-- The moves of a tick do not change the outlook for a task. -/
theorem outlook_step (steady : m.Steady) (still : ∀ name, (m.dispatcher.entering name).time = 0)
    (goes : m.Goes name) (inside : move.Inside) (made : m.step? move = some m') :
    m'.outlook name = m.outlook name := by
  rcases inside_cases inside made with rfl | ⟨l, toils, rfl⟩
  · exact outlook_chore steady goes made
  · exact outlook_work steady still toils

/-- What was to be seen of a task is seen in the end, if no other task stops the tick. -/
theorem Steady.outlook (steady : m.Steady)
    (still : ∀ name, (m.dispatcher.entering name).time = 0) (goes : m.Goes name)
    (reached : Reaches Move.Inside m m') : m'.outlook name = m.outlook name := by
  have kept : m'.Steady ∧ (∀ name, (m'.dispatcher.entering name).time = 0) ∧ m'.Goes name ∧
      m'.outlook name = m.outlook name := by
    induction reached with
    | refl => exact ⟨steady, still, goes, rfl⟩
    | step before inside made ih =>
      obtain ⟨steady₁, still₁, goes₁, same⟩ := ih
      refine ⟨steady₁.step inside made, ?_, goes_step steady₁ goes₁ inside made,
        (outlook_step steady₁ still₁ goes₁ inside made).trans same⟩
      intro other
      rw [time_entering_step steady₁ inside made]
      exact still₁ other
  exact kept.2.2.2

/-- Between two ticks, when the workers have settled and none of the jobs waits, nothing more is to be
seen. -/
theorem outlook_of_settled (idle : m.idle = true)
    (settled : m.dispatcher.Settled) (vacant : name ∉ m.dispatcher.waiting) :
    m.outlook name = m.dispatcher.view name := by
  have none : m.chores = [] := List.isEmpty_iff.mp idle
  have silent : (m.dispatcher.view name).tell [] = m.dispatcher.view name := rfl
  have unwaiting : (m.dispatcher.view name).waits = false := by simpa [Dispatcher.view] using vacant
  simp only [Moment.outlook, none, List.not_mem_nil, if_false, List.filterMap_nil, silent, View.relax,
    View.enter_of_not_waits _ _ unwaiting]
  unfold View.leave
  cases holds : (m.dispatcher.view name).run with
  | none => rfl
  | some run =>
    have held : run ∈ m.dispatcher.held := List.mem_of_find?_eq_some holds
    have named : run.name = name := by simpa using List.find?_some holds
    subst named
    simp only [Dispatcher.ready_view, settled.blocked run held, Bool.false_eq_true, if_false]

end Moment

end Cadence

import Cadence.Demo
import Cadence.Proofs.SleepingBody
import Cadence.Proofs.SwiftLoop

/-!
What the demonstration starts with.

The collectors are registered one after the other, since their names are distinct
(`Demo.Furnished.registerAll`); then the controls are set, which no collector notices
(`Demo.setUp_furnished`).
-/

namespace Cadence

/-- A task can be made as it is asked for. -/
structure Spec.Sane (spec : Spec) (body : Body) : Prop where
  named : spec.name ≠ ""
  positive : 0 < spec.interval.count
  body : spec.body = some body

/-- A task is made as it is asked for, and nothing has happened to it. -/
structure Task.Made (spec : Spec) (t : Task) : Prop where
  spec : t.spec = spec
  fresh : t.Fresh
  healthy : t.Healthy
  unvisited : t.visits = []

theorem Spec.Sane.made {spec : Spec} {body : Body} (sane : spec.Sane body) :
    ∃ t, Task.ofSpec spec = .ok t ∧ t.Made spec := by
  obtain ⟨named, positive, present⟩ := sane
  obtain ⟨name, interval, capabilities, _⟩ := spec
  cases present
  simp only [Task.ofSpec, dif_neg named, dif_pos positive]
  exact ⟨_, rfl, rfl, ⟨rfl, rfl⟩, rfl, rfl⟩

@[simp] theorem Dispatcher.clock_noteWhen (s : Dispatcher) (condition : Bool) (level : Level)
    (text : String) : (s.noteWhen condition level text).clock = s.clock := by
  unfold noteWhen
  split <;> rfl

namespace Demo

/-- The collector that sleeps, if it is added. -/
def sleeper : String := "disk_scan"

/-- The collector that is critical. -/
def guard : String := "stats_collector"

/-- Tasks as they were asked for were registered for the epoch, and nothing happened to them since. -/
structure Furnished (workers : Nat) (specs : List Spec) (s : Dispatcher) : Prop where
  lull : Moment.Lull sleeper guard workers s
  unstarted : s.scheduler.pool = none
  clock : s.clock = .epoch
  roster : s.scheduler.entries.map (·.task.spec) = specs
  /-- Each task is new, and its first slot comes due an interval after the epoch. -/
  tasks : ∀ e ∈ s.scheduler.entries,
    e.task.Made e.task.spec ∧ e.due = Instant.epoch.after e.task.interval
  silent : s.sink.events = []
  minInterval : s.scheduler.minInterval = (specs.map (·.interval)).foldl Millis.shorter .longest

namespace Furnished

variable {workers : Nat} {specs : List Spec} {s t : Dispatcher}

theorem names (furnished : Furnished workers specs s) :
    s.scheduler.names = specs.map (·.name) := by
  rw [← furnished.roster, List.map_map]
  rfl

/-- A task that was asked for is registered, and its first slot comes due an interval after the epoch. -/
theorem entry (furnished : Furnished workers specs s) {spec : Spec} (member : spec ∈ specs) :
    ∃ e ∈ s.scheduler.entries, s.scheduler.entry? spec.name = some e ∧ e.task.Made spec ∧
      e.due = Instant.epoch.after spec.interval := by
  rw [← furnished.roster] at member
  obtain ⟨e, present, same⟩ := List.mem_map.mp member
  obtain ⟨made, due⟩ := furnished.tasks e present
  have found := Scheduler.entry?_of_mem furnished.lull.sound.distinct present
  rw [same] at made
  rw [show e.task.name = spec.name from congrArg Spec.name same] at found
  rw [show e.task.interval = spec.interval from congrArg Spec.interval same] at due
  exact ⟨e, present, found, made, due⟩

/-- A task that is registered was asked for. -/
theorem asked (furnished : Furnished workers specs s) {e : Entry} (member : e ∈ s.scheduler.entries) :
    e.task.spec ∈ specs := by
  rw [← furnished.roster]
  exact List.mem_map_of_mem member

/-- Nothing is under way for any task. -/
theorem view (furnished : Furnished workers specs s) (name : String) :
    (s.view name).clock = .epoch ∧ (s.view name).waits = false ∧ (s.view name).run = none ∧
      (s.view name).events = [] := by
  have vacant := Dispatcher.Vacant.of_unstarted furnished.unstarted
  refine ⟨furnished.clock, ?_, ?_, ?_⟩
  · simp [Dispatcher.view, vacant.waiting]
  · simp [Dispatcher.view, vacant.held]
  · simp [Dispatcher.view, furnished.silent]

/-- At first there are no tasks. -/
theorem create (positive : 0 < workers) : ∃ s, Dispatcher.create workers = .ok s ∧
    Furnished workers [] s := by
  have created : Scheduler.create workers = .ok { workers, workers_pos := positive } :=
    dif_pos positive
  refine ⟨_, by rw [Dispatcher.create, created]; rfl, ?_⟩
  constructor
  · exact .initial created
  · rfl
  · rfl
  · rfl
  · simp
  · rfl
  · rfl

/-- One more task is registered, under a new name. -/
theorem enroll (furnished : Furnished workers specs s) {spec : Spec} {new : Task}
    (made : new.Made spec) (light : new.Light sleeper guard)
    (absent : spec.name ∉ specs.map (·.name)) : ∃ t, s.register (some new) s.clock = .ok t ∧
      Furnished workers (specs ++ [spec]) t := by
  have named : new.name = spec.name := congrArg Spec.name made.spec
  have unregistered : new.name ∉ s.scheduler.names := by rwa [furnished.names, named]
  have unrefused : s.scheduler.refusal? new.name = none :=
    Scheduler.refusal?_eq_none_iff.mpr ⟨by rw [Scheduler.started, furnished.unstarted]; rfl, unregistered⟩
  have registered := Dispatcher.register_of_unrefused unrefused s.clock
  refine ⟨_, registered, ?_⟩
  constructor
  · have order : Move.Order (Task.Light sleeper guard) (.register (some new) s.clock) := light
    have within : Move.Within Moment.Unmarked (fun _ => True) (.register (some new) s.clock) :=
      made.fresh.1
    have vacant : Dispatcher.Vacant { s with scheduler := s.scheduler.enroll new s.clock } :=
      Dispatcher.Vacant.of_unstarted furnished.unstarted
    refine furnished.lull.step order within ?_ vacant.settled
    intro now verdict
    exact Moment.step?_register rfl unrefused s.clock
  · exact furnished.unstarted
  · exact furnished.clock
  · simp only [Scheduler.enroll, List.map_append, furnished.roster, List.map_cons, List.map_nil]
    rw [← made.spec]
    rfl
  · intro e member
    rcases List.mem_append.mp member with old | added
    · exact furnished.tasks e old
    · rw [List.mem_singleton] at added
      subst added
      refine ⟨⟨rfl, made.fresh, made.healthy, made.unvisited⟩, ?_⟩
      rw [furnished.clock]
  · exact furnished.silent
  · have interval : new.interval = spec.interval := congrArg Spec.interval made.spec
    simp only [Scheduler.enroll, furnished.minInterval, List.map_append, List.map_cons, List.map_nil,
      List.foldl_append, List.foldl_cons, List.foldl_nil, interval]

/-- Tasks with new and distinct names are all registered. -/
theorem registerAll {rest : List Spec} (furnished : Furnished workers specs s)
    (distinct : ((specs ++ rest).map (·.name)).Nodup)
    (light : ∀ spec ∈ rest, ∃ body, spec.Sane body ∧
      ∀ t : Task, t.spec = spec → t.Light sleeper guard) :
    ∃ t, Demo.registerAll rest s = .ok t ∧ Furnished workers (specs ++ rest) t := by
  induction rest generalizing specs s with
  | nil =>
    rw [List.append_nil]
    exact ⟨s, rfl, furnished⟩
  | cons spec rest ih =>
    obtain ⟨body, sane, light₁⟩ := light spec List.mem_cons_self
    obtain ⟨new, ofSpec, made⟩ := sane.made
    have absent : spec.name ∉ specs.map (·.name) := by
      intro present
      rw [List.map_append, List.map_cons] at distinct
      exact (List.nodup_append.mp distinct).2.2 _ present _ List.mem_cons_self rfl
    obtain ⟨u, registered, furnished'⟩ := furnished.enroll made (light₁ new made.spec) absent
    have order : specs ++ spec :: rest = specs ++ [spec] ++ rest := by simp
    rw [order] at distinct ⊢
    obtain ⟨t, done, last⟩ := ih furnished' distinct fun other later =>
      light other (List.mem_cons_of_mem _ later)
    refine ⟨t, ?_, last⟩
    simp only [Demo.registerAll, ofSpec, registered]
    exact done

/-- A control is used that the tasks do not notice. -/
theorem act (furnished : Furnished workers specs s) (action : Action) (f : Task → Task)
    (done : s.act action = .ok t) (pool : t.scheduler.pool = s.scheduler.pool)
    (clock : t.clock = s.clock) (sink : t.sink = s.sink)
    (entries : t.scheduler.entries = s.scheduler.entries.map fun e => { e with task := f e.task })
    (minInterval : t.scheduler.minInterval = s.scheduler.minInterval)
    (keeps : ∀ task : Task, (f task).spec = task.spec ∧
      ∀ spec, task.Made spec → (f task).Made spec) : Furnished workers specs t := by
  have unstarted := pool.trans furnished.unstarted
  constructor
  · have order : Move.Order (Task.Light sleeper guard) (.act action) := trivial
    have within : Move.Within Moment.Unmarked (fun _ => True) (.act action) := trivial
    refine furnished.lull.step order within ?_ (Dispatcher.Vacant.of_unstarted unstarted).settled
    intro now verdict
    simp [Moment.step?, done]
  · exact unstarted
  · exact clock.trans furnished.clock
  · rw [entries, List.map_map, ← furnished.roster]
    apply List.map_congr_left
    exact fun e _ => (keeps e.task).1
  · intro e' member
    rw [entries] at member
    obtain ⟨e, old, rfl⟩ := List.mem_map.mp member
    obtain ⟨made, due⟩ := furnished.tasks e old
    have same := (keeps e.task).1
    refine ⟨same.symm ▸ (keeps e.task).2 _ made, ?_⟩
    rw [due]
    exact congrArg _ (congrArg Spec.interval same).symm
  · rw [sink]
    exact furnished.silent
  · rw [minInterval]
    exact furnished.minInterval

theorem setMode (furnished : Furnished workers specs s) (mode : Mode) :
    Furnished workers specs (s.setMode mode) := by
  refine furnished.act (.setMode mode) id rfl ?_ ?_ ?_ ?_ ?_ ?_
  · simp [Dispatcher.setMode]
  · simp [Dispatcher.setMode, Dispatcher.modifyScheduler]
  · simp [Dispatcher.setMode]
  · simp [Dispatcher.setMode]
  · simp [Dispatcher.setMode]
  · simp

theorem setEnabled (furnished : Furnished workers specs s) (on : Bool) :
    Furnished workers specs (s.setEnabled on) := by
  refine furnished.act (.setEnabled on) id rfl ?_ ?_ ?_ ?_ ?_ ?_
  · simp [Dispatcher.setEnabled]
  · simp [Dispatcher.setEnabled, Dispatcher.modifyScheduler]
  · simp [Dispatcher.setEnabled]
  · simp [Dispatcher.setEnabled]
  · simp [Dispatcher.setEnabled]
  · simp

theorem setContention (furnished : Furnished workers specs s) (on : Bool) :
    Furnished workers specs (s.setContention on) := by
  refine furnished.act (.setContention on) (fun t => { t with contention := on }) rfl rfl rfl
    rfl rfl rfl ?_
  exact fun task => ⟨rfl, fun spec made => ⟨made.spec, made.fresh, made.healthy, made.unvisited⟩⟩

end Furnished

/-- Every collector can be made; none but the sleeper waits, and none but the guard is critical. -/
theorem light_collectors (overload : Bool) : ∀ spec ∈ collectors overload, ∃ body, spec.Sane body ∧
    ∀ t : Task, t.spec = spec → t.Light sleeper guard := by
  have checked : ∀ spec ∈ collectors overload, spec.name ≠ "" ∧ 0 < spec.interval.count ∧
      (spec.body.any fun body => body.work = 0 ∧ (spec.name ≠ sleeper → body.wait = .nothing)) ∧
      (spec.name ≠ guard → spec.capabilities.has .critical = false) := by
    cases overload <;> decide +kernel
  intro spec member
  obtain ⟨named, positive, body, harmless⟩ := checked spec member
  obtain ⟨body, present, light⟩ := (Option.any_eq_true _ _).mp body
  obtain ⟨still, brisk⟩ := of_decide_eq_true light
  refine ⟨body, ⟨named, positive, present⟩, ?_⟩
  rintro t rfl
  cases present
  exact ⟨still, brisk, harmless⟩

/-- The demonstration starts with its collectors, registered for the epoch. -/
theorem setUp_furnished (o : Options) (positive : 0 < o.workers) : ∃ s, setUp o = .ok s ∧
    Furnished o.workers (collectors o.overload) s ∧ s.scheduler.enabled = true ∧
    s.scheduler.mode = o.mode := by
  obtain ⟨s, created, blank⟩ := Furnished.create positive
  have distinct : ((collectors o.overload).map (·.name)).Nodup := by
    cases o.overload <;> decide +kernel
  obtain ⟨t, registered, furnished⟩ := blank.registerAll distinct (light_collectors o.overload)
  refine ⟨((t.setMode o.mode).setContention true).setEnabled true, ?_,
    ((furnished.setMode o.mode).setContention true).setEnabled true, ?_, ?_⟩
  · have made : (Dispatcher.create o.workers).bind (registerAll (collectors o.overload)) = .ok t := by
      rw [created]
      exact registered
    rw [setUp, made]
  · simp [Dispatcher.setEnabled]
  · simp [Dispatcher.setEnabled, Dispatcher.setContention, Dispatcher.setMode, Scheduler.setContention]

end Demo

end Cadence

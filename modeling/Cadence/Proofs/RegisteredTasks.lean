import Cadence.Proofs.Deadline

/-!
The roll of a scheduler: what its tasks were asked for, in the order of their registration, and whether
they are to monitor contention.

An accepted registration adds to the roll, the control of contention marks all of it, and nothing else
touches it (`Moment.roll_cases`).  So it lists the tasks that were added, all with the present setting
(`Moment.Passes.lists`), and with the timetable it makes up what the registry of a scheduler tells
(`Moment.registry_in_order`).
-/

namespace Cadence

/-- What tasks were asked for, each with whether it is to monitor contention. -/
structure Roll where
  tasks : List (Spec × Bool)
  /-- Whether tasks are to monitor contention. -/
  contention : Bool

namespace Roll

variable (r : Roll)

/-- A task more, with the present setting. -/
def enroll (task : Task) : Roll := { r with tasks := r.tasks ++ [(task.spec, r.contention)] }

/-- Another setting, for all tasks. -/
def setContention (on : Bool) : Roll where
  tasks := r.tasks.map fun task => (task.1, on)
  contention := on

/-- The roll lists these tasks, each with the present setting. -/
def Lists (added : List Task) : Prop := r.tasks = added.map fun task => (task.spec, r.contention)

variable {r} {added : List Task}

theorem Lists.enroll (lists : r.Lists added) (task : Task) :
    (r.enroll task).Lists (added ++ [task]) := by
  simp only [Lists, Roll.enroll, List.map_append, List.map_singleton]
  exact congrArg (· ++ _) lists

theorem Lists.setContention (lists : r.Lists added) (on : Bool) :
    (r.setContention on).Lists added := by
  rw [Lists, Roll.setContention, lists, List.map_map]
  rfl

end Roll

namespace Scheduler

def roll (s : Scheduler) : Roll where
  tasks := s.entries.map fun e => (e.task.spec, e.task.contention)
  contention := s.contention

variable (s : Scheduler)

/-- A change of entries that is not about what their tasks were asked for. -/
theorem roll_modifyEntry (name : String) {f : Entry → Entry}
    (keeps : ∀ e, (f e).task.spec = e.task.spec ∧ (f e).task.contention = e.task.contention) :
    (s.modifyEntry name f).roll = s.roll := by
  simp only [roll, modifyEntry, List.map_map, Roll.mk.injEq, and_true]
  apply List.map_congr_left
  intro e _
  rw [Function.comp_apply]
  split
  · rw [(keeps e).1, (keeps e).2]
  · rfl

theorem roll_enroll (task : Task) (instant : Instant) :
    (s.enroll task instant).roll = s.roll.enroll task := by
  simp only [roll, enroll, List.map_append]
  rfl

theorem roll_setContention (on : Bool) : (s.setContention on).roll = s.roll.setContention on := by
  simp only [roll, setContention, Roll.setContention, List.map_map]
  rfl

end Scheduler

/-! ## Operations -/

namespace Dispatcher

variable {s t : Dispatcher}

/-- A control marks the whole roll, or leaves it as it is. -/
theorem roll_act {action : Action} (done : s.act action = .ok t) :
    t.scheduler.roll = s.scheduler.roll ∨
      ∃ on, t.scheduler.roll = s.scheduler.roll.setContention on := by
  cases action with
  | setMode mode =>
    cases done
    exact .inl (by simp [setMode, Scheduler.roll])
  | setEnabled on =>
    cases done
    exact .inl (by simp [setEnabled, Scheduler.roll])
  | setContention on =>
    cases done
    exact .inr ⟨on, s.scheduler.roll_setContention on⟩
  | setHealth name health =>
    cases done
    exact .inl (s.scheduler.roll_modifyEntry name fun _ => ⟨rfl, rfl⟩)
  | permit name =>
    cases done
    exact .inl (s.scheduler.roll_modifyEntry name fun _ => ⟨rfl, rfl⟩)
  | advance ns =>
    cases done
    exact .inl rfl
  | raise what => cases done

theorem roll_consider {target : String} {now : Instant} {result : Chore.Result}
    (done : s.consider target now = (result, t)) : t.scheduler.roll = s.scheduler.roll := by
  have considers := considers done
  generalize t.scheduler = scheduler at considers
  have consumed : ∀ e : Entry, e.consumeSlot.task.spec = e.task.spec ∧
      e.consumeSlot.task.contention = e.task.contention := by simp
  have marked : ∀ e : Entry, (e.startRun now).task.spec = e.task.spec ∧
      (e.startRun now).task.contention = e.task.contention := by simp [Task.mark, Task.spec]
  cases considers with
  | notDue early => rfl
  | muted e due muted => exact Scheduler.roll_modifyEntry _ target consumed
  | refused e due audible denied => exact Scheduler.roll_modifyEntry _ target consumed
  | blocked e due audible admitted busy critical =>
    exact Scheduler.roll_modifyEntry _ target consumed
  | demoted e next report due audible admitted busy overrun =>
    exact Scheduler.roll_modifyEntry _ target (by simp [Task.spec])
  | started e pool due audible admitted free submitted =>
    exact Scheduler.roll_modifyEntry s.scheduler target marked
  | rejected e fault due free refused => exact Scheduler.roll_modifyEntry _ target marked

/-- A chore marks the whole roll, or leaves it as it is. -/
theorem roll_perform {now : Instant} {chore : Chore} {result : Chore.Result}
    (done : s.perform now chore = (result, t)) : t.scheduler.roll = s.scheduler.roll ∨
      ∃ on, t.scheduler.roll = s.scheduler.roll.setContention on := by
  cases chore with
  | consider target => exact .inl (roll_consider done)
  | record event target =>
    cases done
    exact .inl rfl
  | note line =>
    cases done
    exact .inl rfl
  | act action =>
    simp only [perform] at done
    split at done
    · rename_i acted
      cases done
      exact roll_act acted
    · cases done
      exact .inl rfl

theorem roll_take? (taken : s.take? = some t) : t.scheduler.roll = s.scheduler.roll := by
  obtain ⟨name, after, pool, _, _, scheduler, _⟩ := take?_eq_some taken
  rw [scheduler]
  exact Scheduler.roll_modifyEntry { s.scheduler with pool := some after } name
    (f := fun e => { e with task := e.task.enter }) fun _ => ⟨rfl, rfl⟩

theorem roll_finish (s : Dispatcher) (run : Run) : (s.finish run).scheduler.roll = s.scheduler.roll :=
  Scheduler.roll_modifyEntry { s.scheduler with pool := s.scheduler.pool.map (·.release run) } run.name
    (f := fun e => { e with task := e.task.complete run.began s.clock }) fun _ => ⟨rfl, rfl⟩

end Dispatcher

/-! ## Steps -/

/-- The task that is added, if a registration is accepted. -/
def Stage.added? (stage : Stage) : Option Task :=
  match stage.move with
  | .register (some task) _ =>
    if stage.before.dispatcher.scheduler.refusal? task.name = none then some task else none
  | _ => none

namespace History

/-- The tasks that were added, in their order. -/
def added (h : History Stage) : List Task := h.all.filterMap Stage.added?

theorem added_cons (stage : Stage) (h : History Stage) :
    added (stage :: h) = h.added ++ stage.added?.toList := by
  simp only [added, all, List.reverse_cons, List.filterMap_append]
  cases found : stage.added? <;> simp [found]

theorem added_append (later h : History Stage) : added (later ++ h) = h.added ++ later.added := by
  simp [added, all]

end History

namespace Moment

variable {m m' : Moment} {move : Move}

/-- A step adds a task to the roll, or marks all of it, or leaves it as it is. -/
theorem roll_cases (made : m.step? move = some m') :
    (∃ task, Stage.added? ⟨m, move⟩ = some task ∧
      m'.dispatcher.scheduler.roll = m.dispatcher.scheduler.roll.enroll task) ∨
    Stage.added? ⟨m, move⟩ = none ∧
      (m'.dispatcher.scheduler.roll = m.dispatcher.scheduler.roll ∨
        ∃ on, m'.dispatcher.scheduler.roll = m.dispatcher.scheduler.roll.setContention on) := by
  cases makes made with
  | @registered new instant idle unrefused unstarted unregistered =>
    exact .inl ⟨new, if_pos unrefused, Scheduler.roll_enroll _ new instant⟩
  | @refused task instant fault idle refused =>
    refine .inr ⟨?_, .inl rfl⟩
    cases task with
    | none => rfl
    | some new =>
      exact if_neg (Dispatcher.refusal?_of_error refused)
  | started idle => exact .inr ⟨rfl, .inl (by simp [withDispatcher, Scheduler.start, Scheduler.roll])⟩
  | begun idle =>
    refine .inr ⟨rfl, .inl ?_⟩
    rw [beginTick, Dispatcher.opened]
    split
    · rw [Dispatcher.scheduler_start]
      rfl
    · rfl
  | performed left done => exact .inr ⟨rfl, Dispatcher.roll_perform done⟩
  | noted idle => exact .inr ⟨rfl, .inl rfl⟩
  | acted done => exact .inr ⟨rfl, Dispatcher.roll_act done⟩
  | failed => exact .inr ⟨rfl, .inl rfl⟩
  | hooked => exact .inr ⟨rfl, .inl rfl⟩
  | taken taken => exact .inr ⟨rfl, .inl (Dispatcher.roll_take? taken)⟩
  | finished held ready => exact .inr ⟨rfl, .inl (Dispatcher.roll_finish _ _)⟩

/-- No step makes the shortest interval longer. -/
theorem minInterval_step (sound : m.Sound) (made : m.step? move = some m') :
    m'.dispatcher.scheduler.minInterval.count.toInt ≤
      m.dispatcher.scheduler.minInterval.count.toInt := by
  rcases plan_cases sound made with same | ⟨row, enrolled⟩ | ⟨now, name, served⟩
  · exact (congrArg (·.shortest.count.toInt) same).le
  · have shorter : m'.dispatcher.scheduler.minInterval =
        m.dispatcher.scheduler.minInterval.shorter row.interval := congrArg Plan.shortest enrolled
    rw [shorter]
    unfold Millis.shorter
    split
    · rename_i less
      exact (Int64.lt_iff_toInt_lt.mp less).le
    · exact le_rfl
  · exact (congrArg (·.shortest.count.toInt) served).le

/-! ## Runs -/

variable {allowed : Move → Prop} {workers : Nat} {scheduler : Scheduler} {h : History Stage}

theorem Passes.lists (created : Scheduler.create workers = .ok scheduler)
    (passed : Passes allowed (initial scheduler) h m) : m.dispatcher.scheduler.roll.Lists h.added := by
  induction passed with
  | refl =>
    obtain ⟨_, rfl⟩ := Scheduler.eq_of_create created
    rfl
  | step before may made ih =>
    rw [History.added_cons]
    rcases roll_cases made with ⟨task, added, roll⟩ | ⟨added, roll | ⟨on, roll⟩⟩
    · rw [roll, added]
      exact ih.enroll task
    · rw [roll, added, Option.toList_none, List.append_nil]
      exact ih
    · rw [roll, added, Option.toList_none, List.append_nil]
      exact ih.setContention on

/-- The shortest interval never was shorter. -/
theorem Passes.minInterval_le {first : Moment} (sound : first.Sound)
    (passed : Passes allowed first h m) :
    m.dispatcher.scheduler.minInterval.count.toInt ≤
        first.dispatcher.scheduler.minInterval.count.toInt ∧
      ∀ stage ∈ h, m.dispatcher.scheduler.minInterval.count.toInt ≤
        stage.before.dispatcher.scheduler.minInterval.count.toInt := by
  induction passed with
  | refl => exact ⟨le_rfl, by simp⟩
  | step before may made ih =>
    have step := minInterval_step (sound.of_reaches before.reaches) made
    refine ⟨step.trans ih.1, fun stage member => ?_⟩
    rcases List.mem_cons.mp member with rfl | old
    · exact step
    · exact step.trans (ih.2 stage old)

/-- Where nothing is registered, nothing is added. -/
theorem Passes.added_eq_nil {first : Moment} {action : Action → Prop}
    (passed : Passes (Move.Within (fun _ => False) action) first h m) : h.added = [] := by
  induction passed with
  | refl => rfl
  | @step h m m' move before may made ih =>
    rw [History.added_cons, ih]
    cases move with
    | register task instant =>
      cases task with
      | none => rfl
      | some new => cases may
    | _ => rfl

end Moment

/-! ## The registry -/

/-- What the registry of a scheduler tells, once these tasks were added. -/
structure Scheduler.InOrder (s : Scheduler) (added : List Task) : Prop where
  /-- The tasks are those that were added, in the order of their registration. -/
  tasks : s.entries.map (·.task.spec) = added.map Task.spec
  distinct : s.names.Nodup
  /-- The shortest interval is the least of theirs, or the longest span if there are none. -/
  shortest : s.Shortest s.minInterval
  /-- Each task monitors contention if this is what is set. -/
  contention : ∀ e ∈ s.entries, e.task.contention = s.contention
  /-- A due time is told of the registered names, and of no other. -/
  present : ∀ name, (s.due? name).isSome = true ↔ name ∈ s.names
  /-- It is that of the task of the name. -/
  due : ∀ e ∈ s.entries, s.due? e.task.name = some e.due

theorem Roll.Lists.inOrder {s : Scheduler} {added : List Task} (lists : s.roll.Lists added)
    (distinct : s.names.Nodup) (gauged : s.plan.Gauged) : s.InOrder added where
  tasks := by
    have specs := congrArg (List.map Prod.fst) lists
    simpa [Scheduler.roll, Function.comp_def] using specs
  distinct := distinct
  shortest := gauged.shortest
  contention e member := by
    have listed : (e.task.spec, e.task.contention) ∈ s.roll.tasks := List.mem_map_of_mem member
    rw [lists] at listed
    obtain ⟨task, _, same⟩ := List.mem_map.mp listed
    exact (Prod.mk.inj same).2.symm
  present name := by
    rw [Scheduler.due?, Option.isSome_map, ← not_iff_not, Bool.not_eq_true, Option.isSome_eq_false_iff,
      Option.isNone_iff_eq_none, Scheduler.entry?_eq_none_iff]
  due e member := by
    rw [Scheduler.due?, Scheduler.entry?_of_mem distinct member, Option.map_some]

namespace Moment

variable {workers : Nat} {scheduler : Scheduler} {h : History Stage} {m : Moment}

/-- Whatever was done to a scheduler, and whatever came of it, its registry is in order, and the shortest
interval never was shorter.  So it is when the loop is run then, under any script, on any thread. -/
theorem registry_in_order (created : Scheduler.create workers = .ok scheduler)
    (passed : Passes (fun _ => True) (initial scheduler) h m) :
    m.dispatcher.scheduler.InOrder h.added ∧
    (∀ stage ∈ h, m.dispatcher.scheduler.minInterval.count.toInt ≤
      stage.before.dispatcher.scheduler.minInterval.count.toInt) ∧
    (m.idle = true → ∀ script duration thread,
      (Session.run script duration
        { dispatcher := m.dispatcher, thread }).2.dispatcher.scheduler.InOrder h.added ∧
      (Session.run script duration
        { dispatcher := m.dispatcher, thread }).2.dispatcher.scheduler.minInterval.count.toInt ≤
          m.dispatcher.scheduler.minInterval.count.toInt) := by
  have inOrder : ∀ {h : History Stage} {m : Moment}, Passes (fun _ => True) (initial scheduler) h m →
      m.dispatcher.scheduler.InOrder h.added := fun passed =>
    (passed.lists created).inOrder (passed.reaches.sound created).scheduler.distinct
      (passed.reaches.gauged created)
  have sound := passed.reaches.sound created
  refine ⟨inOrder passed, (passed.minInterval_le (sound_initial created)).2, ?_⟩
  intro idle script duration thread
  have rests : Rests (Move.Within (fun _ => False) fun _ => True) m m.dispatcher :=
    Rests.of_reaches .refl idle
  obtain ⟨⟨now, verdict, reached⟩, _⟩ := Session.run_rests script
    (s := { dispatcher := m.dispatcher, thread }) (fun _ => trivial) (fun _ _ _ => trivial) duration rests
  obtain ⟨later, ran⟩ := reached.passes
  have whole := inOrder (passed.append (ran.mono fun _ _ => trivial))
  rw [History.added_append, ran.added_eq_nil, List.append_nil] at whole
  exact ⟨whole, (ran.minInterval_le sound).1⟩

/-- A run in which a task is registered, the setting is changed, a second registration of the task is
refused, and another task is registered.  Both tasks are to monitor contention, the one that was there and
the one that came later. -/
theorem registry_in_order_sample : ∃ h m, Passes (fun _ => True) (initial Sample.scheduler) h m ∧
    h.map (·.move) = [.register (some Sample.brief) .epoch, .register (some Sample.gated) .epoch,
      .act (.setContention true), .register (some Sample.gated) .epoch] ∧
    h.added = [Sample.gated, Sample.brief] ∧ m.dispatcher.scheduler.contention = true ∧
    m.dispatcher.scheduler.entries.map (·.task.contention) = [true, true] ∧
    m.dispatcher.scheduler.InOrder h.added := by
  let run := lead (initial Sample.scheduler) [.register (some Sample.gated) .epoch,
    .act (.setContention true), .register (some Sample.gated) .epoch,
    .register (some Sample.brief) .epoch]
  have passed : Passes (fun _ => True) (initial Sample.scheduler) run.1 run.2 :=
    passes_lead (fun _ _ => trivial) (by decide +kernel)
  exact ⟨run.1, run.2, passed, by decide +kernel, by decide +kernel, by decide +kernel, by decide +kernel,
    (registry_in_order Sample.created passed).1⟩

end Moment

end Cadence

import Mathlib.Data.List.Count
import Cadence.Proofs.Moves
import Cadence.Proofs.Standing

/-!
Every step of a scheduler at work is, for each name, a step of that task's standing.

The moments for which this is shown are the `Sound` ones: the jobs and the tasks in progress match,
the counters ascend, the chores of a tick are in order, with what is left of one task before the
evaluation of the next, and what answers an event is the action of a hook.
-/

namespace Cadence

/-- The event that a chore records for the task of a name. -/
def Chore.owes? (name : String) : Chore → Option Event
  | .record event target => if target = name then some event else none
  | .consider _ | .note _ | .act _ => none

/-- Some hook raises the fault. -/
def Sink.Raises (sink : Sink) (fault : Fault) : Prop :=
  ∃ hook ∈ sink.hooks, ∃ what, hook.action = .raise what ∧ fault = .raised what

namespace Dispatcher

/-- The standing of a task, with the chores that are left. -/
def standing (s : Dispatcher) (chores : List Chore) (name : String) : Standing where
  entry := s.scheduler.entry? name
  jobs := s.scheduler.outstanding.count name
  counted event := s.sink.tally.count ⟨event, name⟩
  owed := chores.filterMap (Chore.owes? name)

/-- What a chore means to the task of a name. -/
def turn (s : Dispatcher) (now : Instant) (name : String) : Chore → Turn
  | .consider target =>
    if target = name then
      match s.scheduler.entry? name with
      | some e =>
        if now < e.due then .aside
        else if (s.consider name now).1 = .stop then .stop
        else .slot
      | none => .aside
    else .aside
  | .act (.setHealth target _) => if target = name then .assigned else .aside
  | .act (.raise _) => .failure
  | _ => .aside

/-- A standing by its parts, the counts being those of before. -/
theorem standing_eq {s t : Dispatcher} (chores : List Chore) {later : List Chore} {name : String}
    {entry : Option Entry} {jobs : Nat} {owed : List Event}
    (entry_eq : t.scheduler.entry? name = entry)
    (jobs_eq : t.scheduler.outstanding.count name = jobs)
    (tally : t.sink.tally = s.sink.tally)
    (owed_eq : later.filterMap (Chore.owes? name) = owed) :
    t.standing later name = { s.standing chores name with entry, jobs, owed } := by
  simp only [standing, entry_eq, jobs_eq, tally, owed_eq]

theorem standing_congr {s t : Dispatcher} {chores later : List Chore} {name : String}
    (entry : t.scheduler.entry? name = s.scheduler.entry? name)
    (jobs : t.scheduler.outstanding.count name = s.scheduler.outstanding.count name)
    (tally : t.sink.tally = s.sink.tally)
    (owed : later.filterMap (Chore.owes? name) = chores.filterMap (Chore.owes? name)) :
    t.standing later name = s.standing chores name :=
  standing_eq chores entry jobs tally owed

end Dispatcher

namespace Moment

/-- The standing of a task in a moment. -/
def standing (m : Moment) (name : String) : Standing := m.dispatcher.standing m.chores name

/-- What a move means to the task of a name. -/
def turn (m : Moment) (name : String) : Move → Turn
  | .register (some task) instant =>
    if task.name = name ∧ m.dispatcher.scheduler.refusal? name = none then .enrolled task instant
    else .aside
  | .act (.setHealth target _) => if target = name then .assigned else .aside
  | .chore => (m.chores.head?.map (m.dispatcher.turn m.now name)).getD .aside
  | _ => .aside

/-- A moment in good order. -/
structure Sound (m : Moment) : Prop where
  /-- Jobs and tasks in progress match. -/
  scheduler : m.dispatcher.scheduler.Sound
  /-- The counters ascend. -/
  counters : m.dispatcher.sink.tally.Ascending
  /-- In a tick there is a pool. -/
  started : m.chores ≠ [] → m.dispatcher.scheduler.started = true
  /-- After the evaluation of a task come evaluations only. -/
  ordered : m.chores.Pairwise fun c d => c.level = 3 → d.level = 3
  /-- What is to be done in answer to an event is what some hook says. -/
  answered : ∀ action, Chore.act action ∈ m.chores →
    ∃ hook ∈ m.dispatcher.sink.hooks, hook.action = action
  /-- If the tick failed, some hook made it fail. -/
  faulted : ∀ fault, m.verdict = .fail fault → m.dispatcher.sink.Raises fault

end Moment

/-! ## Controls -/

namespace Dispatcher

/-- Controls, permits and the passing of time touch no task but as the control says. -/
theorem standing_act {s t : Dispatcher} {action : Action} (done : s.act action = .ok t)
    (now : Instant) (chores : List Chore) (name : String) :
    (s.standing chores name).Step (s.turn now name (.act action)) (t.standing chores name) := by
  cases action with
  | setMode mode =>
    cases done
    exact .of_eq (standing_congr (by simp [setMode, Scheduler.entry?])
      (by simp [setMode, Scheduler.outstanding]) (by simp [setMode]) rfl)
  | setEnabled on =>
    cases done
    exact .of_eq (standing_congr (by simp [setEnabled, Scheduler.entry?])
      (by simp [setEnabled, Scheduler.outstanding]) (by simp [setEnabled]) rfl)
  | setContention on =>
    cases done
    have touched := Standing.Step.touch (s.standing chores name)
      (f := fun e => { e with task := { e.task with contention := on } })
      (fun e => ⟨on, e.task.permits, e.task.visits, rfl⟩)
    rw [standing, ← Scheduler.entry?_setContention] at touched
    exact touched
  | setHealth target health =>
    cases done
    have keeps : ∀ e : Entry, ({ e with task := { e.task with health } } : Entry).task.name =
        e.task.name := fun _ => rfl
    by_cases same : target = name
    · subst same
      rw [turn, if_pos rfl]
      have assigned : (s.standing chores target).Step .assigned _ := .assigned health
      rw [standing, ← Scheduler.entry?_modifyEntry_self _ _ keeps] at assigned
      exact assigned
    · rw [turn, if_neg same]
      exact .of_eq (standing_congr
        (Scheduler.entry?_modifyEntry_of_ne _ (Ne.symm same) keeps) rfl rfl rfl)
  | permit target =>
    cases done
    have keeps : ∀ e : Entry, ({ e with task := e.task.permit } : Entry).task.name =
        e.task.name := fun _ => rfl
    by_cases same : target = name
    · subst same
      have touched := Standing.Step.touch (s.standing chores target)
        (f := fun e => { e with task := e.task.permit })
        (fun e => ⟨e.task.contention, e.task.permits + 1, e.task.visits, rfl⟩)
      rw [standing, ← Scheduler.entry?_modifyEntry_self _ _ keeps] at touched
      exact touched
    · exact .of_eq (standing_congr
        (Scheduler.entry?_modifyEntry_of_ne _ (Ne.symm same) keeps) rfl rfl rfl)
  | advance ns =>
    cases done
    exact .still
  | raise what => cases done

/-! ## Chores of a tick -/

/-- A job more in the backlog is a job more of its task. -/
theorem outstanding_of_submit {s t : Scheduler} {name : String} {pool : Pool String Run}
    (submitted : s.poolOrNew.submit name = .ok pool) (present : t.pool = some pool) :
    t.outstanding.Perm (name :: s.outstanding) := by
  have before : s.outstanding = s.poolOrNew.jobs := by
    rw [Scheduler.outstanding, Scheduler.poolOrNew]
    cases s.pool <;> rfl
  have after : t.outstanding = pool.jobs := Scheduler.outstanding_of_pool present
  rw [before, after]
  exact Pool.jobs_submit submitted

/-- A sound scheduler hands a task that is not in progress to its pool. -/
theorem submit_ne_error {s : Scheduler} (sound : s.Sound) (started : s.started = true)
    {name : String} {e : Entry} (found : s.entry? name = some e)
    (free : e.task.inProgress = false) (fault : Fault) :
    s.poolOrNew.submit name ≠ .error fault := by
  obtain ⟨pool, present⟩ := Option.isSome_iff_exists.mp started
  have room := sound.room found free present
  have opened := sound.running pool present
  rw [Scheduler.poolOrNew, present, Option.getD_some, Pool.submit_of_room opened room]
  simp

/-- The skipping of a slot is told to one task only. -/
theorem owed_skipChores (target name : String) (report : Bool) :
    (skipChores target report).filterMap (Chore.owes? name) =
      if target = name then (if report then [.markedSlow] else []) ++ [.skippedInProgress]
      else [] := by
  by_cases same : target = name <;> cases report <;>
    simp [skipChores, List.filterMap_cons, Chore.owes?, same]

/-- The evaluation of a task does not touch any other task. -/
theorem standing_consider_of_ne {s t : Dispatcher} {target name : String} {now : Instant}
    {result : Chore.Result} {rest : List Chore} (different : name ≠ target)
    (clear : rest.filterMap (Chore.owes? name) = []) (sink : t.sink = s.sink)
    (considers : s.Considers target now result t.scheduler) :
    t.standing (result.next rest) name = s.standing rest name := by
  generalize after : t.scheduler = scheduler at considers
  have other : ∀ f : Entry → Entry, (∀ e, (f e).task.name = e.task.name) →
      Scheduler.entry? (s.scheduler.modifyEntry target f) name = s.scheduler.entry? name :=
    fun f keeps => Scheduler.entry?_modifyEntry_of_ne _ different keeps
  have quiet : ∀ event, Chore.owes? name (.record event target) = none := by
    intro event
    simp [Chore.owes?, different.symm]
  have tally : t.sink.tally = s.sink.tally := by rw [sink]
  cases considers with
  | notDue early => exact standing_congr (by rw [after]) (by rw [after]) tally rfl
  | muted e due muted =>
    exact standing_congr (by rw [after, other _ (by simp)]) (by rw [after]; rfl) tally
      (by simp [Chore.Result.next, quiet])
  | refused e due audible denied =>
    exact standing_congr (by rw [after, other _ (by simp)]) (by rw [after]; rfl) tally
      (by simp [Chore.Result.next, quiet])
  | blocked e due audible admitted busy critical =>
    exact standing_congr (by rw [after, other _ (by simp)]) (by rw [after]; rfl) tally clear.symm
  | demoted e next report due audible admitted busy overrun =>
    exact standing_congr (by rw [after, other _ (by simp)]) (by rw [after]; rfl) tally
      (by simp [Chore.Result.next, owed_skipChores, different.symm])
  | started e pool due audible admitted free submitted =>
    refine standing_congr ?_ ?_ tally rfl
    · rw [after]
      exact other _ (by simp [Task.mark])
    · have moved := outstanding_of_submit (t := t.scheduler) submitted (by rw [after])
      rw [moved.count_eq, List.count_cons_of_ne different.symm]
  | rejected e fault due free refused =>
    exact standing_congr (by rw [after, other _ (by simp [Task.mark])]) (by rw [after]; rfl) tally
      clear.symm

/-- What the evaluation of a task comes to for the task itself. -/
theorem standing_consider_self {s t : Dispatcher} {target : String} {now : Instant}
    {result : Chore.Result} {rest : List Chore} (sound : s.scheduler.Sound)
    (started : s.scheduler.started = true) (clear : rest.filterMap (Chore.owes? target) = [])
    (done : s.consider target now = (result, t)) :
    (s.standing rest target).Step (s.turn now target (.consider target))
      (t.standing (result.next rest) target) := by
  have considers := considers done
  have tally : t.sink.tally = s.sink.tally := by rw [sink_consider done]
  have result_eq : (s.consider target now).1 = result := by rw [done]
  -- a due task takes the turn that the result says
  have turn_of_due : ∀ e, s.Due target now e → s.turn now target (.consider target) =
      if result = .stop then .stop else .slot := by
    intro e due
    simp only [turn, if_pos, due.found, if_neg due.due, result_eq]
  have owes_self : ∀ event, Chore.owes? target (.record event target) = some event := by
    simp [Chore.owes?]
  generalize after : t.scheduler = scheduler at considers
  have entry : ∀ (f : Entry → Entry) (e : Entry), (∀ e, (f e).task.name = e.task.name) →
      s.Due target now e → Scheduler.entry? (s.scheduler.modifyEntry target f) target = some (f e) := by
    intro f e keeps due
    rw [Scheduler.entry?_modifyEntry_self _ _ keeps, due.found, Option.map_some]
  cases considers with
  | notDue early =>
    have aside : s.turn now target (.consider target) = .aside := by
      cases found : s.scheduler.entry? target with
      | none => simp [turn, found]
      | some e => simp [turn, found, early e found]
    rw [aside]
    exact .of_eq (standing_congr (by rw [after]) (by rw [after]) tally rfl)
  | muted e due muted =>
    have skipped : t.standing ([.record .muted target] ++ rest) target =
        { s.standing rest target with entry := some e.consumeSlot, owed := [.muted] } :=
      standing_eq rest (by rw [after, entry _ e (by simp) due]) (by rw [after]; rfl) tally
        (by simp [owes_self, clear])
    rw [turn_of_due e due, if_neg (by simp), Chore.Result.next, skipped]
    exact .muted due.found clear muted
  | refused e due audible denied =>
    have skipped : t.standing ([.record .skippedForMode target] ++ rest) target =
        { s.standing rest target with entry := some e.consumeSlot, owed := [.skippedForMode] } :=
      standing_eq rest (by rw [after, entry _ e (by simp) due]) (by rw [after]; rfl) tally
        (by simp [owes_self, clear])
    rw [turn_of_due e due, if_neg (by simp), Chore.Result.next, skipped]
    exact .refused due.found clear audible
  | blocked e due audible admitted busy critical =>
    have stopped : t.standing [] target =
        { s.standing rest target with entry := some e.consumeSlot } :=
      standing_eq rest (by rw [after, entry _ e (by simp) due]) (by rw [after]; rfl) tally clear.symm
    rw [turn_of_due e due, if_pos rfl, Chore.Result.next, stopped]
    exact .blocked due.found clear busy critical
  | demoted e next report due audible admitted busy overrun =>
    have demoted : t.standing (skipChores target report ++ rest) target = { s.standing rest target with
        entry := some (e.demote next)
        owed := (if report then [.markedSlow] else []) ++ [.skippedInProgress] } :=
      standing_eq rest (by rw [after, entry _ e (by simp) due]) (by rw [after]; rfl) tally
        (by rw [List.filterMap_append, owed_skipChores, if_pos rfl, clear, List.append_nil])
    rw [turn_of_due e due, if_neg (by simp), Chore.Result.next, demoted]
    exact .demoted due.found clear next report audible busy overrun
  | started e pool due audible admitted free submitted =>
    have moved := outstanding_of_submit (t := t.scheduler) submitted (by rw [after])
    have handed : t.standing rest target = { s.standing rest target with
        entry := some (e.startRun now), jobs := (s.standing rest target).jobs + 1 } :=
      standing_eq rest (by rw [after]; exact entry _ e (by simp [Task.mark]) due)
        (by rw [moved.count_eq, List.count_cons_self]; rfl) tally rfl
    rw [turn_of_due e due, if_neg (by simp), Chore.Result.next, List.nil_append, handed]
    exact .started due.found now audible free
  | rejected e fault due free refused =>
    exact absurd refused (submit_ne_error sound started due.found free fault)

/-- An event is counted for its own task. -/
theorem standing_record {s t : Dispatcher} {event : Event} {target : String} {now : Instant}
    {result : Chore.Result} {rest : List Chore} (ascending : s.sink.tally.Ascending)
    (done : s.perform now (.record event target) = (result, t)) (name : String) :
    (s.standing (.record event target :: rest) name).Step .aside
      (t.standing (result.next rest) name) := by
  cases done
  -- the answers to an event record nothing
  have answers : ∀ actions : List Action,
      (actions.map Chore.act).filterMap (Chore.owes? name) = [] := by
    intro actions
    simp [Chore.owes?]
  by_cases same : target = name
  · subst same
    have counted : (fun e => (s.sink.tally.record ⟨event, target⟩).count ⟨e, target⟩) =
        Function.update (fun e => s.sink.tally.count ⟨e, target⟩) event
          (s.sink.tally.count ⟨event, target⟩ + 1) := by
      funext e
      by_cases it : e = event
      · subst it
        rw [Function.update_self, Tally.count_record_self ascending]
      · rw [Function.update_of_ne it, Tally.count_record_of_ne _ (by simp [it])]
    have next : (s.standing (.record event target :: rest) target).owed =
        event :: rest.filterMap (Chore.owes? target) := by simp [standing, Chore.owes?]
    have step := Standing.Step.recorded next
    simpa [standing, Chore.Result.next, send, Sink.record, counted, answers] using step
  · have others : ∀ e, (s.sink.tally.record ⟨event, target⟩).count ⟨e, name⟩ =
        s.sink.tally.count ⟨e, name⟩ := by
      intro e
      exact Tally.count_record_of_ne _ (by simp [Ne.symm same])
    apply Standing.Step.of_eq
    simp [standing, Chore.Result.next, Sink.record, others, answers, Chore.owes?, same]

/-- A chore of a tick is a step of every task. -/
theorem standing_perform {s t : Dispatcher} {now : Instant} {chore : Chore} {rest : List Chore}
    {result : Chore.Result} (sound : s.scheduler.Sound) (ascending : s.sink.tally.Ascending)
    (started : s.scheduler.started = true) (ordered : chore.level = 3 → ∀ c ∈ rest, c.level = 3)
    (done : s.perform now chore = (result, t)) (name : String) :
    (s.standing (chore :: rest) name).Step (s.turn now name chore)
      (t.standing (result.next rest) name) := by
  cases chore with
  | consider target =>
    have clear : ∀ n, rest.filterMap (Chore.owes? n) = [] := by
      intro n
      apply List.filterMap_eq_nil_iff.mpr
      intro c member
      have last := ordered rfl c member
      cases c <;> simp_all [Chore.level, Chore.owes?]
    have skip : s.standing (.consider target :: rest) name = s.standing rest name := rfl
    rw [skip]
    by_cases same : name = target
    · subst same
      exact standing_consider_self sound started (clear name) done
    · have aside : s.turn now name (.consider target) = .aside := by
        rw [turn, if_neg (Ne.symm same)]
      rw [aside]
      exact .of_eq (standing_consider_of_ne same (clear name) (sink_consider done) (considers done))
  | record event target => exact standing_record ascending done name
  | note line =>
    cases done
    exact .still
  | act action =>
    simp only [perform] at done
    split at done
    · rename_i u acted
      cases done
      exact standing_act acted now rest name
    · rename_i fault refused
      cases done
      cases action with
      | raise what => exact .failed
      | _ => cases refused

end Dispatcher

/-! ## Moves -/

namespace Dispatcher

/-- A run that is held is held in the pool. -/
theorem pool_of_held {s : Dispatcher} {run : Run} (held : run ∈ s.held) :
    ∃ pool, s.scheduler.pool = some pool ∧ run ∈ pool.held := by
  unfold Dispatcher.held at held
  cases present : s.scheduler.pool with
  | none => simp [present] at held
  | some pool => exact ⟨pool, rfl, by simpa [present] using held⟩

/-- A worker that takes a job leaves it unfinished. -/
theorem outstanding_take {s t : Dispatcher} (taken : s.take? = some t) :
    t.scheduler.outstanding.Perm s.scheduler.outstanding := by
  obtain ⟨target, after, pool, present, popped, scheduler, _⟩ := take?_eq_some taken
  have later : t.scheduler.outstanding = after.jobs := by
    rw [scheduler]
    exact Scheduler.outstanding_of_pool rfl
  rw [later, Scheduler.outstanding_of_pool present]
  exact Pool.jobs_take? (fun _ => rfl) popped

/-- A worker that finishes a run finishes one job, of the task of the run. -/
theorem outstanding_finish {s : Dispatcher} {run : Run} (held : run ∈ s.held) :
    s.scheduler.outstanding.Perm (run.name :: (s.finish run).scheduler.outstanding) := by
  obtain ⟨pool, present, within⟩ := pool_of_held held
  have after : (s.finish run).scheduler.outstanding = (pool.release run).jobs := by
    apply Scheduler.outstanding_of_pool
    simp [finish, modifyScheduler, Scheduler.modifyTask, Scheduler.modifyEntry, present]
  rw [Scheduler.outstanding_of_pool present, after]
  exact Pool.jobs_release within

/-- Taking a job leaves it unfinished; its task is visited. -/
theorem standing_take {s t : Dispatcher} (taken : s.take? = some t) (chores : List Chore)
    (name : String) : (s.standing chores name).Step .aside (t.standing chores name) := by
  have jobs := (outstanding_take taken).count_eq name
  obtain ⟨target, after, _, _, _, scheduler, sink⟩ := take?_eq_some taken
  have tally : t.sink.tally = s.sink.tally := by rw [sink]
  have keeps : ∀ e : Entry, ({ e with task := e.task.enter } : Entry).task.name = e.task.name :=
    fun _ => rfl
  by_cases same : name = target
  · subst same
    have entry : t.scheduler.entry? name =
        (s.scheduler.entry? name).map fun e => { e with task := e.task.enter } := by
      rw [scheduler]
      exact Scheduler.entry?_modifyEntry_self { s.scheduler with pool := some after } name keeps
    rw [standing_eq chores entry jobs tally rfl]
    exact Standing.Step.touch (s.standing chores name) fun e => ⟨e.task.contention, e.task.permits,
      ⟨e.task.startTime, e.task.inProgress, e.task.contention⟩ :: e.task.visits, rfl⟩
  · have entry : t.scheduler.entry? name = s.scheduler.entry? name := by
      rw [scheduler]
      exact Scheduler.entry?_modifyEntry_of_ne { s.scheduler with pool := some after } same keeps
    exact .of_eq (standing_congr entry jobs tally rfl)

/-- The task of a run that is held is in progress. -/
theorem busy_of_held {s : Dispatcher} (sound : s.scheduler.Sound) {run : Run}
    (held : run ∈ s.held) :
    ∃ e, s.scheduler.entry? run.name = some e ∧ e.task.inProgress = true := by
  have job : run.name ∈ s.scheduler.outstanding :=
    (outstanding_finish held).mem_iff.mpr List.mem_cons_self
  have busy := sound.busy_of_job job
  cases found : s.scheduler.entry? run.name with
  | none => simp [Scheduler.busy, Scheduler.task?, found] at busy
  | some e => exact ⟨e, rfl, Scheduler.busy_of_found found ▸ busy⟩

/-- Finishing a run leaves its entry with the task completed. -/
theorem entry?_finish_self (s : Dispatcher) (run : Run) :
    (s.finish run).scheduler.entry? run.name =
      (s.scheduler.entry? run.name).map fun e =>
        { e with task := e.task.complete run.began s.clock } :=
  Scheduler.entry?_modifyEntry_self
    { s.scheduler with pool := s.scheduler.pool.map (·.release run) } run.name (fun _ => rfl)

/-- Finishing a run finishes a job of its task, which is in progress. -/
theorem standing_finish {s : Dispatcher} (sound : s.scheduler.Sound) {run : Run}
    (held : run ∈ s.held) (chores : List Chore) (name : String) :
    (s.standing chores name).Step .aside ((s.finish run).standing chores name) := by
  have freed := (outstanding_finish held).count_eq name
  by_cases same : name = run.name
  · subst same
    obtain ⟨e, found, busy⟩ := busy_of_held sound held
    have entry : (s.finish run).scheduler.entry? run.name =
        some { e with task := e.task.complete run.began s.clock } := by
      rw [entry?_finish_self, found, Option.map_some]
    rw [List.count_cons_self] at freed
    have jobs : (s.finish run).scheduler.outstanding.count run.name =
        s.scheduler.outstanding.count run.name - 1 := by
      rw [freed, Nat.add_sub_cancel]
    have job : 0 < (s.standing chores run.name).jobs := by
      show 0 < s.scheduler.outstanding.count run.name
      omega
    rw [standing_eq (s := s) chores entry jobs rfl rfl]
    exact .finished found busy job run.began s.clock
  · have entry : (s.finish run).scheduler.entry? name = s.scheduler.entry? name :=
      Scheduler.entry?_modifyEntry_of_ne
        { s.scheduler with pool := s.scheduler.pool.map (·.release run) } same (fun _ => rfl)
    rw [List.count_cons_of_ne (Ne.symm same)] at freed
    exact .of_eq (standing_congr entry freed.symm rfl rfl)

end Dispatcher

namespace Moment

variable {m m' : Moment} {move : Move}

/-- A registration is the registration of one task. -/
theorem standing_register {new : Task} {instant : Instant}
    (unrefused : m.dispatcher.scheduler.refusal? new.name = none)
    (unregistered : new.name ∉ m.dispatcher.scheduler.names) (name : String) :
    (m.standing name).Step (m.turn name (.register (some new) instant))
      ((m.withDispatcher { m.dispatcher with
        scheduler := m.dispatcher.scheduler.enroll new instant }).standing name) := by
  by_cases same : new.name = name
  · subst same
    have absent := Scheduler.entry?_eq_none_iff.mpr unregistered
    have entry := Scheduler.entry?_enroll_self m.dispatcher.scheduler unregistered instant
    have enrolled := Dispatcher.standing_eq (s := m.dispatcher)
      (t := { m.dispatcher with scheduler := m.dispatcher.scheduler.enroll new instant })
      m.chores entry rfl rfl (rfl : m.chores.filterMap (Chore.owes? new.name) = _)
    rw [turn, if_pos ⟨rfl, unrefused⟩, standing, standing, withDispatcher, enrolled]
    exact .enrolled new _ instant absent
  · rw [turn, if_neg (by simp [same])]
    apply Standing.Step.of_eq
    exact (Dispatcher.standing_congr
      (Scheduler.entry?_enroll_of_ne _ (Ne.symm same) instant) rfl rfl rfl)

/-- A registration that is refused means nothing to any task. -/
theorem turn_of_refused {task : Option Task} {instant : Instant} {fault : Fault}
    (refused : m.dispatcher.register task instant = .error fault) (name : String) :
    m.turn name (.register task instant) = .aside := by
  cases task with
  | none => rfl
  | some new =>
    rw [turn, if_neg]
    rintro ⟨rfl, unrefused⟩
    exact Dispatcher.refusal?_of_error refused unrefused

/-- On the agenda of a tick are evaluations of tasks, and nothing else. -/
theorem consider_of_mem_agenda {s : Dispatcher} {c : Chore} (member : c ∈ s.agenda) :
    ∃ name ∈ s.scheduler.names, c = .consider name := by
  unfold Dispatcher.agenda at member
  split at member
  · obtain ⟨name, registered, rfl⟩ := List.mem_map.mp member
    exact ⟨name, registered, rfl⟩
  · cases member

/-- The agenda of a tick records nothing by itself. -/
theorem owed_agenda (s : Dispatcher) (name : String) :
    s.agenda.filterMap (Chore.owes? name) = [] := by
  refine List.filterMap_eq_nil_iff.mpr fun c member => ?_
  obtain ⟨target, _, rfl⟩ := consider_of_mem_agenda member
  rfl

/-- A tick that evaluates tasks evaluates each of them once. -/
theorem count_agenda {s : Dispatcher} (distinct : s.scheduler.names.Nodup) (name : String) :
    s.agenda.count (.consider name) =
      if s.scheduler.enabled ∧ name ∈ s.scheduler.names then 1 else 0 := by
  unfold Dispatcher.agenda
  cases s.scheduler.enabled with
  | false => simp
  | true =>
    have injective : Function.Injective Chore.consider := fun a b same => Chore.consider.inj same
    simp only [if_true, true_and, List.count_map_of_injective _ _ injective]
    split
    · rename_i registered
      exact List.count_eq_one_of_mem distinct registered
    · rename_i unregistered
      exact List.count_eq_zero.mpr unregistered

/-- To begin a tick means nothing to any task yet. -/
theorem standing_beginTick (idle : m.idle = true) (now : Instant) (name : String) :
    (m.beginTick now).standing name = m.standing name := by
  have none : m.chores = [] := List.isEmpty_iff.mp idle
  refine Dispatcher.standing_congr ?_ ?_ ?_ ?_
  · simp only [beginTick, Dispatcher.opened]
    split <;> simp [Scheduler.start, Scheduler.entry?]
  · simp only [beginTick, Dispatcher.opened]
    split <;> simp [Scheduler.outstanding_start]
  · simp only [beginTick, Dispatcher.opened]
    split <;> simp
  · rw [none]
    exact owed_agenda m.dispatcher name

/-- A step of the whole system is a step of every task. -/
theorem standing_step (sound : m.Sound) (made : m.step? move = some m') (name : String) :
    (m.standing name).Step (m.turn name move) (m'.standing name) := by
  cases makes made with
  | registered idle unrefused unstarted unregistered =>
    exact standing_register unrefused unregistered name
  | refused idle refused =>
    rw [turn_of_refused refused]
    exact .still
  | started idle =>
    exact .of_eq (Dispatcher.standing_congr (by simp [withDispatcher, Scheduler.start, Scheduler.entry?])
      (by simp [withDispatcher, Scheduler.outstanding_start]) (by simp [withDispatcher]) rfl)
  | begun idle => exact .of_eq (standing_beginTick idle _ name)
  | @performed chore rest result t left done =>
    have turn : m.turn name .chore = m.dispatcher.turn m.now name chore := by
      simp [Moment.turn, left]
    have ordered := List.pairwise_cons.mp (left ▸ sound.ordered)
    have started := sound.started (by simp [left])
    rw [turn, standing, standing, left]
    exact Dispatcher.standing_perform sound.scheduler sound.counters started
      (fun level c member => ordered.1 c member level) done name
  | noted idle => exact .still
  | @acted action t done =>
    have step := Dispatcher.standing_act done m.now m.chores name
    cases action with
    | raise what => cases done
    | _ => exact step
  | failed => exact .still
  | hooked => exact .still
  | taken taken => exact Dispatcher.standing_take taken m.chores name
  | finished held ready => exact Dispatcher.standing_finish sound.scheduler held m.chores name

end Moment

end Cadence

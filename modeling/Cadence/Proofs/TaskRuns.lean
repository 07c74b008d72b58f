import Cadence.Proofs.TickAccount

/-!
What becomes of the runs of a task, deed by deed.

For the task of one name a run of the system is a list of deeds: the task is registered, a tick hands it
to the pool, a worker enters its body, and completes the run.  A `Desk` is all that a moment holds about
these runs, and `Desk.Step` lists what a deed does to it; every step of the whole system is, for every
name, one of these (`Moment.desk_step`).
-/

namespace Cadence

/-- What a task tells of its runs. -/
structure Timecard where
  /-- The instant it was last marked for. -/
  start : Instant
  /-- Whether it is in progress. -/
  busy : Bool
  stats : Stats
  /-- The start time and the mark that its body saw, on each entry. -/
  seen : History (Instant × Bool)
  deriving DecidableEq, Repr

def Task.timecard (t : Task) : Timecard where
  start := t.startTime
  busy := t.inProgress
  stats := t.stats
  seen := t.visits.map fun visit => (visit.start, visit.busy)

/-- What a step can do about the runs of a task. -/
inductive Deed
  /-- The task is registered. -/
  | enrolled (task : Task)
  /-- A tick at `now` hands it to the pool. -/
  | submitted (now : Instant)
  /-- A worker enters its body. -/
  | entered (now : Instant)
  /-- A worker completes a run of it; `ended` is what its own clock says then. -/
  | completed (began ended : Instant) (failed : Bool)
  deriving DecidableEq, Repr

/-- Whether a run is completed whose body failed. -/
def Deed.fails : Deed → Bool
  | completed _ _ failed => failed
  | enrolled _ | submitted _ | entered _ => false

/-- What a task tells after a deed. -/
def Timecard.after (c : Timecard) : Deed → Timecard
  | .enrolled task => task.timecard
  | .submitted now => { c with start := now, busy := true }
  | .entered _ => { c with seen := (c.start, c.busy) :: c.seen }
  | .completed began ended failed =>
    { c with
      stats := c.stats.observe ⟨began.since c.start, ended.since began, failed⟩
      busy := false }

/-- What a step does about the runs of the task of a name. -/
def Stage.deed? (stage : Stage) (name : String) : Option Deed :=
  match stage.move with
  | .register (some task) _ =>
    if task.name = name ∧ stage.before.dispatcher.scheduler.refusal? name = none then
      some (.enrolled task)
    else none
  | .chore => if name ∈ stage.handed then some (.submitted stage.before.now) else none
  | .take =>
    if stage.before.dispatcher.waiting.head? = some name then
      some (.entered stage.before.dispatcher.clock)
    else none
  | .finish run =>
    if run.name = name then
      (stage.before.dispatcher.scheduler.task? name).map fun task =>
        .completed run.began (stage.before.dispatcher.clock.advance task.ownTime)
          task.body.ending.failed
    else none
  | _ => none

/-- What was done about the runs of the task of a name, in its order. -/
def History.deeds (h : History Stage) (name : String) : List Deed := h.all.filterMap (·.deed? name)

theorem History.deeds_cons (stage : Stage) (h : History Stage) (name : String) :
    History.deeds (stage :: h) name = h.deeds name ++ (stage.deed? name).toList := by
  simp only [deeds, all, List.reverse_cons, List.filterMap_append]
  cases done : stage.deed? name <;> simp [done]

/-- What a moment holds about the runs of the task of a name. -/
structure Desk where
  /-- What the task tells, if it is registered. -/
  card : Option Timecard := none
  /-- How many of its jobs wait. -/
  waiting : Nat := 0
  /-- The runs that workers hold. -/
  held : List Run := []
  deriving DecidableEq, Repr

/-- What a deed does to what is held about the task of a name. -/
inductive Desk.Step (name : String) (d : Desk) : Option Deed → Desk → Prop
  | still : d.Step name none d
  | enrolled (task : Task) (missing : d.card = none) :
    d.Step name (some (.enrolled task)) { d with card := some task.timecard }
  /-- A task is handed over only when it is not in progress. -/
  | submitted {c : Timecard} (present : d.card = some c) (free : c.busy = false) (now : Instant) :
    d.Step name (some (.submitted now))
      { d with card := some (c.after (.submitted now)), waiting := d.waiting + 1 }
  | entered {c : Timecard} (present : d.card = some c) (waits : 0 < d.waiting) (now : Instant) :
    d.Step name (some (.entered now))
      { card := some (c.after (.entered now))
        waiting := d.waiting - 1
        held := d.held ++ [⟨name, now⟩] }
  | completed {c : Timecard} (present : d.card = some c) {run : Run} (held : run ∈ d.held)
    (ended : Instant) (failed : Bool) :
    d.Step name (some (.completed run.began ended failed))
      { d with
        card := some (c.after (.completed run.began ended failed))
        held := d.held.erase run }

theorem Desk.Step.of_eq {name : String} {d d' : Desk} (same : d' = d) : d.Step name none d' :=
  same ▸ .still

/-! ## Operations -/

namespace Dispatcher

variable {s t : Dispatcher} {name : String}

/-- What a dispatcher holds about the runs of the task of a name. -/
def desk (s : Dispatcher) (name : String) : Desk where
  card := (s.scheduler.entry? name).map (·.task.timecard)
  waiting := s.waiting.count name
  held := s.held.filter (·.name = name)

theorem desk_congr (entry : t.scheduler.entry? name = s.scheduler.entry? name)
    (waiting : t.waiting = s.waiting) (held : t.held = s.held) : t.desk name = s.desk name := by
  simp only [desk, entry, waiting, held]

/-- A change of a task that is not about its runs. -/
theorem card_modifyTask (s : Scheduler) (target : String) {f : Task → Task}
    (keeps : ∀ task, (f task).name = task.name) (same : ∀ task, (f task).timecard = task.timecard)
    (name : String) : (Scheduler.entry? (s.modifyTask target f) name).map (·.task.timecard) =
      (s.entry? name).map (·.task.timecard) := by
  have keeps : ∀ e : Entry, ({ e with task := f e.task } : Entry).task.name = e.task.name :=
    fun e => keeps e.task
  by_cases own : name = target
  · subst own
    rw [Scheduler.modifyTask, Scheduler.entry?_modifyEntry_self s name keeps, Option.map_map]
    exact congrArg (Option.map · _) (funext fun e => same e.task)
  · rw [Scheduler.modifyTask, Scheduler.entry?_modifyEntry_of_ne s own keeps]

/-- Controls, permits and the passing of time are not about the runs of a task. -/
theorem desk_act {action : Action} (done : s.act action = .ok t) (name : String) :
    t.desk name = s.desk name := by
  have pool := (pool_act done).1
  have waiting : t.waiting = s.waiting := by rw [Dispatcher.waiting, pool, Dispatcher.waiting]
  have held : t.held = s.held := by rw [Dispatcher.held, pool, Dispatcher.held]
  suffices card : (t.scheduler.entry? name).map (·.task.timecard) =
      (s.scheduler.entry? name).map (·.task.timecard) by
    simp only [desk, card, waiting, held]
  cases action with
  | setMode mode =>
    cases done
    simp [setMode, Scheduler.entry?]
  | setEnabled on =>
    cases done
    simp [setEnabled, Scheduler.entry?]
  | setContention on =>
    cases done
    rw [setContention, scheduler_modifyScheduler, Scheduler.entry?_setContention, Option.map_map]
    rfl
  | setHealth target health =>
    cases done
    exact card_modifyTask s.scheduler target (f := fun task => { task with health })
      (fun _ => rfl) (fun _ => rfl) name
  | permit target =>
    cases done
    exact card_modifyTask s.scheduler target (f := Task.permit) (fun _ => rfl) (fun _ => rfl) name
  | advance ns =>
    cases done
    rfl
  | raise what => cases done

theorem desk_opened (s : Dispatcher) (name : String) : s.opened.desk name = s.desk name :=
  desk_congr (s.entry?_opened name) s.waiting_opened s.held_opened

theorem desk_start (s : Dispatcher) (name : String) : s.start.desk name = s.desk name := by
  refine desk_congr ?_ ?_ ?_
  · rw [scheduler_start]
    rfl
  · rw [waiting, scheduler_start, Scheduler.start, Scheduler.poolOrNew, waiting]
    cases s.scheduler.pool <;> rfl
  · rw [held, scheduler_start, Scheduler.start, Scheduler.poolOrNew, held]
    cases s.scheduler.pool <;> rfl

section

variable {p : Pool String Run} {target : String} (offers : s.Offers target p)
include offers

theorem waiting_entering : s.waiting = target :: (s.does (s.entering target)).waiting := by
  have front := offers.front
  simpa [waiting, does, entering, offers.present] using front

theorem held_entering : (s.does (s.entering target)).held = s.held ++ [⟨target, s.clock⟩] := by
  simp [held, does, entering, offers.present]

/-- A worker that enters the body of another task. -/
theorem desk_enter_of_ne (different : name ≠ target) :
    (s.does (s.entering target)).desk name = s.desk name := by
  have entry : (s.does (s.entering target)).scheduler.entry? name = s.scheduler.entry? name :=
    entry?_does_of_ne (s := s) (l := s.entering target) (fun _ => rfl) different
  have waiting := congrArg (List.count name) (waiting_entering offers)
  rw [List.count_cons_of_ne different.symm] at waiting
  have held := held_entering offers
  simp [desk, entry, waiting, held, different.symm]

/-- A worker that enters the body of a task: the job no longer waits, and the run is held. -/
theorem desk_enter (sound : s.scheduler.Sound) : (s.desk target).Step target
    (some (.entered s.clock)) ((s.does (s.entering target)).desk target) := by
  have waiting := congrArg (List.count target) (waiting_entering offers)
  rw [List.count_cons_self] at waiting
  have held := held_entering offers
  have job : target ∈ s.scheduler.outstanding := by
    rw [s.outstanding_eq]
    exact List.mem_append_left _ (List.count_pos_iff.mp (by omega))
  obtain ⟨e, found⟩ := Option.ne_none_iff_exists'.mp fun none =>
    Scheduler.entry?_eq_none_iff.mp none (Scheduler.registered_of_busy (sound.busy_of_job job))
  have entry : (s.does (s.entering target)).scheduler.entry? target =
      (s.scheduler.entry? target).map fun e => { e with task := e.task.enter } :=
    entry?_does_self (s := s) (l := s.entering target) fun _ => rfl
  have after : (s.does (s.entering target)).desk target = {
      card := some (e.task.timecard.after (.entered s.clock))
      waiting := (s.desk target).waiting - 1
      held := (s.desk target).held ++ [⟨target, s.clock⟩] } := by
    simp only [desk, entry, found, waiting, held, List.filter_append, Option.map_some,
      Nat.add_sub_cancel]
    simp [Task.timecard, Timecard.after, Task.enter]
  rw [after]
  exact .entered (by simp [desk, found]) (by simp [desk, waiting]) s.clock

end

section

variable {run : Run}

theorem waiting_finishing : (s.does (s.finishing run)).waiting = s.waiting := by
  unfold waiting does finishing
  cases s.scheduler.pool <;> rfl

theorem held_finishing : (s.does (s.finishing run)).held = s.held.erase run := by
  unfold held does finishing
  cases s.scheduler.pool <;> rfl

/-- A worker that completes a run of another task. -/
theorem desk_finish_of_ne (different : name ≠ run.name) :
    (s.does (s.finishing run)).desk name = s.desk name := by
  have entry : (s.does (s.finishing run)).scheduler.entry? name = s.scheduler.entry? name :=
    entry?_does_of_ne (s := s) (l := s.finishing run) (fun _ => rfl) different
  have other : run ∉ s.held.filter (·.name = name) := by simp [different.symm]
  simp only [desk, entry, waiting_finishing, held_finishing, ← List.erase_filter,
    List.erase_of_not_mem other]

/-- A worker that completes a run: the run is no longer held, and is accounted for. -/
theorem desk_finish (sound : s.scheduler.Sound) (holds : run ∈ s.held) :
    ∃ task, s.scheduler.task? run.name = some task ∧ (s.desk run.name).Step run.name
      (some (.completed run.began (s.clock.advance task.ownTime) task.body.ending.failed))
      ((s.does (s.finishing run)).desk run.name) := by
  obtain ⟨e, found, _⟩ := busy_of_held sound holds
  have entry : (s.does (s.finishing run)).scheduler.entry? run.name =
      (s.scheduler.entry? run.name).map fun e =>
        { e with task := e.task.complete run.began s.clock } :=
    entry?_does_self (s := s) (l := s.finishing run) fun _ => rfl
  have after : (s.does (s.finishing run)).desk run.name = { s.desk run.name with
      card := some (e.task.timecard.after
        (.completed run.began (s.clock.advance e.task.ownTime) e.task.body.ending.failed))
      held := (s.desk run.name).held.erase run } := by
    simp only [desk, entry, found, waiting_finishing, held_finishing, ← List.erase_filter]
    rfl
  refine ⟨e.task, by simp [Scheduler.task?, found], ?_⟩
  rw [after]
  exact .completed (by simp [desk, found]) (by simp [desk, holds]) _ _

end

end Dispatcher

/-! ## Steps -/

namespace Moment

variable {m m' : Moment} {move : Move}

/-- A task of another name is handed over, or none. -/
theorem deed?_of_unhanded {name : String} (unhanded : name ∉ Stage.handed ⟨m, .chore⟩) :
    Stage.deed? ⟨m, .chore⟩ name = none := if_neg unhanded

/-- An evaluation hands over a task that starts, and is not about the runs of any other. -/
theorem desk_evaluated (tidy : m.Tidy) {f : Finding} {rest : List Chore} (finds : m.Finds f rest)
    (name : String) : (m.dispatcher.desk name).Step name (Stage.deed? ⟨m, .chore⟩ name)
      ((m.evaluated f rest).dispatcher.desk name) := by
  have handed : Stage.handed ⟨m, .chore⟩ = if f.outcome = .started then [f.name] else [] := by
    rw [(Advances.of_finds tidy finds).handed, finding?_of_finds finds]
    by_cases starts : f.outcome = .started <;> simp [starts]
  have present : m.dispatcher.scheduler.pool.isSome := tidy.sound.started (by simp [finds.left])
  have waiting := waiting_evaluated m f rest present
  by_cases own : name = f.name
  · subst own
    have entry := entry?_evaluated_self m f rest finds.found
    by_cases starts : f.outcome = .started
    · rw [if_pos starts] at handed waiting
      have deed : Stage.deed? ⟨m, .chore⟩ f.name = some (.submitted m.now) :=
        if_pos (handed ▸ List.mem_singleton_self _)
      have left : f.left.task = f.entry.task.mark m.now := by
        rw [Finding.left, starts, finds.now]
        exact f.entry.task_startRun f.now
      have after : (m.evaluated f rest).dispatcher.desk f.name = { m.dispatcher.desk f.name with
          card := some (f.entry.task.timecard.after (.submitted m.now))
          waiting := (m.dispatcher.desk f.name).waiting + 1 } := by
        simp [Dispatcher.desk, entry, waiting, left, Task.timecard, Timecard.after, Task.mark]
      have free : f.entry.task.inProgress = false := by
        refine f.entry.free_of_starts f.mode f.now ?_
        exact f.ruling_starts.trans (by simp [starts])
      rw [deed, after]
      exact .submitted (by simp [Dispatcher.desk, finds.found]) free m.now
    · rw [if_neg starts] at handed waiting
      have left : f.left.task.timecard = f.entry.task.timecard := by
        unfold Finding.left
        split <;> simp_all [Task.timecard]
      rw [deed?_of_unhanded (by simp [handed])]
      refine .of_eq ?_
      simp [Dispatcher.desk, entry, finds.found, waiting, left]
  · have entry := entry?_evaluated_of_ne m f rest own
    have unhanded : name ∉ Stage.handed ⟨m, .chore⟩ := by
      rw [handed]
      split <;> simp [own]
    have waiting : (m.evaluated f rest).dispatcher.waiting.count name =
        m.dispatcher.waiting.count name := by
      rw [waiting]
      split <;> simp [Ne.symm own]
    rw [deed?_of_unhanded unhanded]
    refine .of_eq ?_
    simp [Dispatcher.desk, entry, waiting]

/-- A step of a worker is about the runs of one task. -/
theorem desk_toils (sound : m.Sound) {l : Labour} (toils : m.dispatcher.Toils move l)
    (name : String) : (m.dispatcher.desk name).Step name (Stage.deed? ⟨m, move⟩ name)
      ((m.dispatcher.does l).desk name) := by
  cases toils with
  | @take target p offers =>
    have front : m.dispatcher.waiting.head? = some target := by
      rw [Dispatcher.waiting, offers.present, Option.map_some, Option.getD_some, offers.front]
      rfl
    by_cases own : name = target
    · subst own
      have deed : Stage.deed? ⟨m, .take⟩ name = some (.entered m.dispatcher.clock) := if_pos front
      rw [deed]
      exact Dispatcher.desk_enter offers sound.scheduler
    · have deed : Stage.deed? ⟨m, .take⟩ name = none := by
        refine if_neg ?_
        rw [front, Option.some.injEq]
        exact Ne.symm own
      rw [deed]
      exact .of_eq (Dispatcher.desk_enter_of_ne offers own)
  | @finish run held ready =>
    by_cases own : name = run.name
    · subst own
      obtain ⟨task, present, step⟩ := Dispatcher.desk_finish sound.scheduler held
      have deed : Stage.deed? ⟨m, .finish run⟩ run.name = some (.completed run.began
          (m.dispatcher.clock.advance task.ownTime) task.body.ending.failed) := by
        simp [Stage.deed?, present]
      rw [deed]
      exact step
    · have deed : Stage.deed? ⟨m, .finish run⟩ name = none := if_neg (Ne.symm own)
      rw [deed]
      exact .of_eq (Dispatcher.desk_finish_of_ne own)

/-- The same for every step within a tick. -/
theorem desk_inside (tidy : m.Tidy) (inside : move.Inside) (made : m.step? move = some m')
    (name : String) : (m.dispatcher.desk name).Step name (Stage.deed? ⟨m, move⟩ name)
      (m'.dispatcher.desk name) := by
  have quiet : ∀ {c : Chore} {rest : List Chore}, m.chores = c :: rest → c.considers? = none →
      m.step? .chore = some m' → Stage.deed? ⟨m, .chore⟩ name = none := by
    intro c rest left other made
    have chore : Move.Inside .chore := trivial
    refine deed?_of_unhanded ?_
    rw [(advances tidy chore made).handed, finding?_of_other left other]
    simp
  cases tidy.continues inside made with
  | evaluated finds => exact desk_evaluated tidy finds name
  | recorded left =>
    rw [quiet left rfl made]
    exact .still
  | noted left =>
    rw [quiet left rfl made]
    exact .still
  | obeyed left done =>
    rw [quiet left rfl made]
    exact .of_eq (Dispatcher.desk_act done name)
  | failed left =>
    rw [quiet left rfl made]
    exact .still
  | worked toils => exact desk_toils tidy.sound toils name

/-- A step of the whole system is, for every name, a step of what is held about the runs. -/
theorem desk_step (tidy : m.Tidy) (made : m.step? move = some m') (name : String) :
    (m.dispatcher.desk name).Step name (Stage.deed? ⟨m, move⟩ name) (m'.dispatcher.desk name) := by
  cases makes made with
  | @registered new instant idle unrefused unstarted unregistered =>
    by_cases own : new.name = name
    · subst own
      have deed : Stage.deed? ⟨m, .register (some new) instant⟩ new.name = some (.enrolled new) :=
        if_pos ⟨rfl, unrefused⟩
      have after : Scheduler.entry? (m.dispatcher.scheduler.enroll new instant) new.name =
          some ⟨{ new with contention := m.dispatcher.scheduler.contention },
            instant.after new.interval⟩ :=
        Scheduler.entry?_enroll_self _ unregistered instant
      have missing := Scheduler.entry?_eq_none_iff.mpr unregistered
      have desk : Dispatcher.desk { m.dispatcher with
          scheduler := m.dispatcher.scheduler.enroll new instant } new.name =
          { m.dispatcher.desk new.name with card := some new.timecard } := by
        simp only [Dispatcher.desk, after]
        rfl
      rw [deed, withDispatcher, desk]
      exact .enrolled new (by simp [Dispatcher.desk, missing])
    · have deed : Stage.deed? ⟨m, .register (some new) instant⟩ name = none :=
        if_neg fun both => own both.1
      rw [deed]
      exact .of_eq (Dispatcher.desk_congr
        (Scheduler.entry?_enroll_of_ne _ (Ne.symm own) instant) rfl rfl)
  | @refused task instant fault idle refused =>
    have deed : Stage.deed? ⟨m, .register task instant⟩ name = none := by
      cases task with
      | none => rfl
      | some new =>
        refine if_neg ?_
        rintro ⟨rfl, unrefused⟩
        exact Dispatcher.refusal?_of_error refused unrefused
    rw [deed]
    exact .still
  | started idle => exact .of_eq (m.dispatcher.desk_start name)
  | begun idle => exact .of_eq (m.dispatcher.desk_opened name)
  | performed left done =>
    have inside : Move.Inside .chore := trivial
    exact desk_inside tidy inside made name
  | noted idle => exact .still
  | acted done => exact .of_eq (Dispatcher.desk_act done name)
  | failed => exact .still
  | hooked => exact .still
  | taken taken =>
    have inside : Move.Inside .take := trivial
    exact desk_inside tidy inside made name
  | @finished run held ready =>
    have inside : Move.Inside (.finish run) := trivial
    exact desk_inside tidy inside made name

end Moment

end Cadence

import Cadence.Proofs.Isolation

/-!
What one tick comes to when no body waits or takes time.

The workers have then nothing left to do after a tick (`Moment.Calm.vacant`), so that no task is found in
progress and no tick ends early (`Moment.Calm.tick`).  A task that is due consumes one slot in the tick, by
a run or by an event, as the mode has it (`View.Paced.tick`).
-/

namespace Cadence

/-- The body of the task neither waits nor moves the clock. -/
def Task.Swift (t : Task) : Prop := t.body.work = 0 ∧ t.body.wait = .nothing

theorem Task.Swift.congr {t t' : Task} (swift : t.Swift) (same : t'.spec = t.spec) : t'.Swift := by
  have body : t'.body = t.body := Option.some.inj (congrArg Spec.body same)
  unfold Task.Swift at *
  rw [body]
  exact swift

theorem Instant.advance_sub (t u : Instant) : t.advance (u.nanos - t.nanos) = u := by
  rw [Instant.advance, Int64.add_comm, Int64.sub_add_cancel]

/-- If no step can be made, nothing is repeated. -/
theorem exhaust_of_none {σ : Type} {step? : σ → Option σ} {s : σ} (rests : step? s = none) (n : Nat) :
    exhaust step? n s = s := by
  cases n with
  | zero => rfl
  | succ n => rw [exhaust, rests]

namespace Dispatcher

variable {s : Dispatcher}

/-- The workers have nothing to do. -/
structure Vacant (s : Dispatcher) : Prop where
  waiting : s.waiting = []
  held : s.held = []

theorem Vacant.of_unstarted (unstarted : s.scheduler.pool = none) : s.Vacant := by
  constructor
  · simp [Dispatcher.waiting, unstarted]
  · simp [Dispatcher.held, unstarted]

theorem Vacant.settled (vacant : s.Vacant) : s.Settled := by
  constructor
  · simp [vacant.held]
  · exact fun waits => absurd vacant.waiting waits

/-- A pool that is made has nothing to do. -/
theorem Vacant.start (vacant : s.Vacant) : s.start.Vacant := by
  unfold Dispatcher.start
  split
  · exact vacant
  · rename_i unstarted
    have none : s.scheduler.pool = none := by simpa [Scheduler.started] using unstarted
    constructor
    · simp [Dispatcher.waiting, Scheduler.start, Scheduler.poolOrNew, none]
    · simp [Dispatcher.held, Scheduler.start, Scheduler.poolOrNew, none]

/-- Without a body that waits, the workers settle when they have nothing left to do. -/
theorem Settled.vacant_of_swift (settled : s.Settled) (sound : s.scheduler.Sound)
    (staffed : s.scheduler.Staffed) (swift : ∀ e ∈ s.scheduler.entries, e.task.Swift) :
    s.Vacant := by
  have held : s.held = [] := by
    apply List.eq_nil_iff_forall_not_mem.mpr
    intro run held
    obtain ⟨e, found, _⟩ := busy_of_held sound held
    have ready : s.ready run = true := by
      have quick := (swift e (Scheduler.mem_of_found found)).2
      simp [Dispatcher.ready, Scheduler.task?, found, Body.ready, quick]
    rw [settled.blocked run held] at ready
    cases ready
  refine ⟨?_, held⟩
  by_contra waits
  cases present : s.scheduler.pool with
  | none => simp [waiting, present] at waits
  | some p =>
    have full := settled.full waits p present
    have workers := staffed.workers p present
    have positive := s.scheduler.workers_pos
    have none : p.held = [] := by simpa [Dispatcher.held, present] using held
    rw [none, List.length_nil] at full
    omega

/-! ## The end of a tick -/

/-- After chores in order no worker can make a step, if this is so after each of them. -/
theorem work?_inOrder {now : Instant} {chores : List Chore}
    (each : ∀ c ∈ chores, ∀ s, (fulfil now c s).2.work? = none) (rests : s.work? = none) :
    (inOrder (fulfil now) chores s).2.work? = none := by
  induction chores generalizing s with
  | nil => exact rests
  | cons c rest ih =>
    have first := each c List.mem_cons_self s
    unfold inOrder
    cases done : fulfil now c s with
    | mk verdict t =>
      rw [done] at first
      cases verdict with
      | proceed => exact ih (fun d member => each d (List.mem_cons_of_mem c member)) first
      | stop => exact first
      | fail fault => exact first

/-- After a chore and all that it leads to, no worker can make a step. -/
theorem work?_fulfil (now : Instant) (c : Chore) (s : Dispatcher) :
    (fulfil now c s).2.work? = none := by
  -- by induction on the level: what a chore leads to is of a lower one
  generalize bound : c.level = level
  induction level using Nat.strongRecOn generalizing c s with
  | ind level ih =>
    rw [fulfil_eq]
    cases performed : s.perform now c with
    | mk result t =>
      cases result with
      | proceed further =>
        refine work?_inOrder ?_ t.work?_settle
        intro d member s
        exact ih d.level (bound ▸ level_lt_of_perform performed d member) d s rfl
      | stop => exact t.work?_settle
      | fail fault => exact t.work?_settle

/-- After a tick no worker can make a step. -/
theorem work?_tick (settled : s.Settled) (now : Instant) : (s.tick now).2.work? = none :=
  work?_inOrder (fun c _ s => work?_fulfil now c s) (work?_of_settled settled.opened)

/-- Nothing happens as long as nobody wakes. -/
theorem wakeAll_of_asleep {limit : Instant → Bool} (asleep : ∀ t ∈ s.wakeTimes, limit t = false) :
    s.wakeAll limit = s := by
  have nobody : s.wakeTimes.filter limit = [] := by
    apply List.filter_eq_nil_iff.mpr
    intro t wakes
    simp [asleep t wakes]
  apply exhaust_of_none
  rw [wake?, nobody]
  rfl

/-- Nobody sleeps, so that nothing happens in a sleep. -/
theorem Vacant.sleepUntil (vacant : s.Vacant) (instant : Instant) :
    s.sleepUntil instant = { s with clock := instant } := by
  have asleep : s.wakeAll (· ≤ instant) = s :=
    wakeAll_of_asleep (by simp [wakeTimes, vacant.held])
  rw [Dispatcher.sleepUntil, asleep]

end Dispatcher

/-! ## What a task sees of a tick -/

namespace View

variable {v : View} {e : Entry} {start now : Instant} {slots : Nat}

/-- There is nothing to do for a task that neither waits nor runs. -/
theorem relax_of_idle (waits : v.waits = false) (run : v.run = none) (name : String) :
    v.relax name = v := by
  rw [relax, enter_of_not_waits v name waits, leave, run]

/-- The workers leave the clock and the controls alone. -/
theorem controls_relax (v : View) (name : String) : (v.relax name).clock = v.clock ∧
    (v.relax name).mode = v.mode ∧ (v.relax name).enabled = v.enabled := by
  unfold relax leave enter
  repeat' split
  all_goals exact ⟨rfl, rfl, rfl⟩

/-- A tick leaves the clock and the controls alone. -/
theorem controls_relax_evaluate (v : View) (now : Instant) (name : String) :
    ((v.evaluate now).relax name).clock = v.clock ∧ ((v.evaluate now).relax name).mode = v.mode ∧
      ((v.evaluate now).relax name).enabled = v.enabled := by
  have evaluated : (v.evaluate now).clock = v.clock ∧ (v.evaluate now).mode = v.mode ∧
      (v.evaluate now).enabled = v.enabled := by
    unfold evaluate
    split <;> exact ⟨rfl, rfl, rfl⟩
  rw [← evaluated.1, ← evaluated.2.1, ← evaluated.2.2]
  exact (v.evaluate now).controls_relax name

/-- A tick means nothing to a task that is not registered. -/
theorem relax_evaluate_of_missing (missing : v.entry = none) (waits : v.waits = false)
    (run : v.run = none) (now : Instant) (name : String) : (v.evaluate now).relax name = v := by
  have nothing : v.evaluate now = v := by rw [evaluate, missing]
  rw [nothing]
  exact relax_of_idle waits run name

/-- A task is not due. -/
theorem evaluate_early (present : v.entry = some e) (early : now < e.due) : v.evaluate now = v := by
  have same : e.ruling v.mode now = {} := if_pos early
  rw [evaluate, present]
  simp only [same]
  obtain ⟨clock, mode, enabled, contention, entry, waits, run, events⟩ := v
  cases present
  simp [Chore.Result.next, tell]

/-- The mode does not admit a task that is due. -/
theorem evaluate_refused (present : v.entry = some e) (late : ¬ now < e.due)
    (audible : e.task.health ≠ .muted) (denied : e.task.admittedBy v.mode = false) :
    v.evaluate now =
      { v with
        entry := some ⟨e.task, e.due.after e.task.interval⟩
        events := .skippedForMode :: v.events } := by
  have ruling : e.ruling v.mode now =
      { result := .proceed [.record .skippedForMode e.task.name]
        change := Entry.consumeSlot
        lines := [⟨.debug, "Skipping " ++ e.task.name ++
          " collector execution since running in collector mode " ++ v.mode.name⟩] } := by
    simp [Entry.ruling, late, audible, denied]
  have consumed : e.consumeSlot = ⟨e.task, e.due.after e.task.interval⟩ := rfl
  rw [evaluate, present]
  simp [ruling, consumed, Chore.Result.next, Chore.owes?, tell]

/-- A task that is due starts. -/
theorem evaluate_starts (present : v.entry = some e) (late : ¬ now < e.due)
    (audible : e.task.health ≠ .muted) (admitted : e.task.admittedBy v.mode = true)
    (free : e.task.inProgress = false) : v.evaluate now =
      { v with
        entry := some ⟨e.task.mark now, e.due.after e.task.interval⟩
        waits := true } := by
  have ruling : e.ruling v.mode now = { change := Entry.startRun now, starts := true } := by
    simp [Entry.ruling, late, audible, admitted, free]
  have parts : ∀ f : Entry, f = ⟨f.task, f.due⟩ := fun _ => rfl
  have started : e.startRun now = ⟨e.task.mark now, e.due.after e.task.interval⟩ := by
    rw [parts (e.startRun now), Entry.task_startRun, Entry.due_startRun]
  rw [evaluate, present]
  simp [ruling, started, Chore.Result.next, tell]

/-- The task that is seen can start, and nothing is under way for it. -/
structure Startable (v : View) (e : Entry) : Prop where
  entry : v.entry = some e
  waits : v.waits = false
  run : v.run = none
  free : e.task.inProgress = false
  audible : e.task.health ≠ .muted
  swift : e.task.body.wait = .nothing

namespace Startable

variable (startable : v.Startable e)
include startable

/-- A task that is not due is left alone. -/
theorem early (early : now < e.due) : (v.evaluate now).relax e.task.name = v := by
  rw [evaluate_early startable.entry early]
  exact relax_of_idle startable.waits startable.run e.task.name

/-- A task that is due and that the mode does not admit skips the slot. -/
theorem skips (late : ¬ now < e.due) (denied : e.task.admittedBy v.mode = false) :
    (v.evaluate now).relax e.task.name =
      { v with
        entry := some ⟨e.task, e.due.after e.task.interval⟩
        events := .skippedForMode :: v.events } := by
  rw [evaluate_refused startable.entry late startable.audible denied]
  apply relax_of_idle
  · exact startable.waits
  · exact startable.run

/-- A task that is due and that the mode admits runs at once. -/
theorem runs (late : ¬ now < e.due) (admitted : e.task.admittedBy v.mode = true) :
    (v.evaluate now).relax e.task.name =
      { v with
        entry := some ⟨((e.task.mark now).enter).complete v.clock v.clock,
          e.due.after e.task.interval⟩ } := by
  have ready : ∀ task : Task, task.body = e.task.body → ∀ began clock permits,
      task.body.ready began clock permits = true := by
    intro task same began clock permits
    rw [Body.ready, same, startable.swift]
  rw [evaluate_starts startable.entry late startable.audible admitted startable.free, relax, enter,
    if_pos rfl]
  simp [leave, View.ready, ready (e.task.mark now).enter rfl, startable.waits, startable.run]

end Startable

/-- So many slots of a task were consumed since it was registered for an instant, by as many runs if the
mode admits the task, and by as many events otherwise. -/
structure Paced (v : View) (start : Instant) (slots : Nat) (e : Entry) : Prop where
  startable : v.Startable e
  due : e.due.nanos.toInt = start.slotTime e.task.interval (slots + 1)
  runs : e.task.stats.runs.toNat = if e.task.admittedBy v.mode then slots else 0
  events : v.events =
    List.replicate (if e.task.admittedBy v.mode then 0 else slots) .skippedForMode

namespace Paced

variable (paced : v.Paced start slots e)
include paced

theorem lt_due_iff :
    now < e.due ↔ now.nanos.toInt < start.slotTime e.task.interval (slots + 1) := by
  rw [Instant.lt_iff, Int64.lt_iff_toInt_lt, paced.due]

theorem toInt_due_after (fits : start.slotTime e.task.interval (slots + 1 + 1) < 2 ^ 63) :
    (e.due.after e.task.interval).nanos.toInt =
      start.slotTime e.task.interval (slots + 1 + 1) :=
  start.toInt_after_slotTime e.task (fun _ => paced.due) fits

/-- A slot is consumed by an event. -/
theorem skips (late : ¬ now < e.due)
    (fits : start.slotTime e.task.interval (slots + 1 + 1) < 2 ^ 63)
    (denied : e.task.admittedBy v.mode = false) :
    ((v.evaluate now).relax e.task.name).Paced start (slots + 1)
      ⟨e.task, e.due.after e.task.interval⟩ := by
  have startable := paced.startable
  have counted := paced.runs
  have listed := paced.events
  simp only [denied, Bool.false_eq_true, if_false] at counted listed
  rw [startable.skips late denied]
  constructor
  · exact ⟨rfl, startable.waits, startable.run, startable.free, startable.audible, startable.swift⟩
  · exact paced.toInt_due_after fits
  · simpa only [denied, Bool.false_eq_true, if_false] using counted
  · simp only [denied, Bool.false_eq_true, if_false, listed, List.replicate_succ]

/-- A slot is consumed by a run. -/
theorem starts (late : ¬ now < e.due)
    (fits : start.slotTime e.task.interval (slots + 1 + 1) < 2 ^ 63)
    (admitted : e.task.admittedBy v.mode = true) :
    ((v.evaluate now).relax e.task.name).Paced start (slots + 1)
      ⟨((e.task.mark now).enter).complete v.clock v.clock, e.due.after e.task.interval⟩ := by
  have startable := paced.startable
  have counted := paced.runs
  have listed := paced.events
  simp only [admitted, if_true] at counted listed
  have room : e.task.stats.runs.toNat + 1 < 2 ^ 64 := by
    have small := start.lt_word_of_slotTime e.task fits
    omega
  have same : Task.admittedBy (((e.task.mark now).enter).complete v.clock v.clock) v.mode = true :=
    admitted
  rw [startable.runs late admitted]
  constructor
  · exact ⟨rfl, startable.waits, startable.run, rfl, startable.audible, startable.swift⟩
  · exact paced.toInt_due_after fits
  · simp only [same, if_true]
    show (e.task.stats.runs + 1).toNat = slots + 1
    rw [Standing.toNat_succ room, counted]
  · simpa only [same, if_true] using listed

/-- In a tick a task consumes the next slot if it is due, and none otherwise.  Its health stays. -/
theorem tick {later : Nat}
    (next : later =
      if now.nanos.toInt < start.slotTime e.task.interval (slots + 1) then slots else slots + 1)
    (fits : start.slotTime e.task.interval (later + 1) < 2 ^ 63) :
    ∃ e', ((v.evaluate now).relax e.task.name).Paced start later e' ∧
      e'.task.spec = e.task.spec ∧ e'.task.health = e.task.health := by
  by_cases early : now < e.due
  · rw [if_pos (paced.lt_due_iff.mp early)] at next
    subst next
    rw [paced.startable.early early]
    exact ⟨e, paced, rfl, rfl⟩
  · rw [if_neg (early ∘ paced.lt_due_iff.mpr)] at next
    subst next
    cases admitted : e.task.admittedBy v.mode with
    | false => exact ⟨_, paced.skips early fits admitted, rfl, rfl⟩
    | true => exact ⟨_, paced.starts early fits admitted, rfl, rfl⟩

end Paced

end View

namespace Moment

variable {m m' : Moment}

/-- Between two ticks time passes up to an instant. -/
theorem step?_advance (s : Dispatcher) (instant now : Instant) (verdict : Verdict) :
    step? ⟨s, now, [], verdict⟩ (.act (.advance (instant.nanos - s.clock.nanos))) =
      some ⟨{ s with clock := instant }, now, [], verdict⟩ := by
  simp only [step?, Dispatcher.act, Dispatcher.advance, Instant.advance_sub]
  rfl

/-- A tick in which no task that is to be evaluated is in progress does not end early. -/
theorem Steady.proceeds (steady : m.Steady) (goes : ∀ name, m.Goes name)
    (proceeds : m.verdict = .proceed) (reached : Reaches Move.Inside m m') :
    m'.verdict = .proceed := by
  have kept : m'.Steady ∧ (∀ name, m'.Goes name) ∧ m'.verdict = .proceed := by
    induction reached with
    | refl => exact ⟨steady, goes, proceeds⟩
    | step before inside made ih =>
      obtain ⟨steady₁, goes₁, proceeds₁⟩ := ih
      refine ⟨steady₁.step inside made, fun name => goes_step steady₁ (goes₁ name) inside made, ?_⟩
      cases makes made with
      | @performed c rest result t left done =>
        -- the chore is not the evaluation of every task, so that the tick goes on
        have other : ∃ name, c ≠ .consider name := by
          cases c with
          | consider target =>
            by_cases blank : target = ""
            · exact ⟨"-", by simp [blank]⟩
            · exact ⟨"", by simp [blank]⟩
          | _ => exact ⟨"", by simp⟩
        obtain ⟨name, other⟩ := other
        obtain ⟨further, proceeds, _⟩ := goes_on steady₁ (goes₁ name) left other
        have same : result = .proceed further := by
          rw [done] at proceeds
          exact proceeds
        rw [same]
        exact proceeds₁
      | taken taken => exact proceeds₁
      | finished held ready => exact proceeds₁
      | _ => cases inside
  exact kept.2.2

/-- A tick that finds no critical task in progress goes on to its end.  What is seen afterwards of a task,
if no job of it waits, follows from what was seen before. -/
theorem Rested.tick {task : Task → Prop} {workers : Nat} {s : Dispatcher} {before : Instant}
    (closed : ∀ t t', task t → t'.spec = t.spec → task t') (still : ∀ t, task t → t.body.work = 0)
    (rested : Rested task workers ⟨s, before, [], .proceed⟩)
    (free : ∀ e ∈ s.scheduler.entries, e.task.has .critical = true → e.task.inProgress = false)
    (now : Instant) : (s.tick now).1 = .proceed ∧
      Rested task workers ⟨(s.tick now).2, now, [], .proceed⟩ ∧
      ∀ name, name ∉ (s.tick now).2.waiting → (s.tick now).2.view name =
        (if s.scheduler.enabled then (s.view name).evaluate now else s.view name).relax name := by
  have order : Move.Order task (.tick now) := trivial
  have made : step? ⟨s, before, [], .proceed⟩ (.tick now) =
      some (beginTick ⟨s, before, [], .proceed⟩ now) := rfl
  have inside : Reaches Move.Inside (beginTick ⟨s, before, [], .proceed⟩ now)
      ⟨(s.tick now).2, now, [], (s.tick now).1⟩ := tick_inside rfl
  have steady := rested.steady closed still order made
  have goes : ∀ name, (beginTick ⟨s, before, [], .proceed⟩ now).Goes name := by
    intro name e member _ _ busy
    have entries : (beginTick ⟨s, before, [], .proceed⟩ now).dispatcher.scheduler.entries =
        s.scheduler.entries := by
      simp only [beginTick, Dispatcher.opened]
      split <;> simp [Scheduler.start]
    apply Bool.eq_false_iff.mpr
    intro critical
    rw [free e (entries ▸ member) critical] at busy
    cases busy
  have proceeds : (s.tick now).1 = .proceed := steady.proceeds goes rfl inside
  have sound' := steady.sound.of_reaches inside
  have settled := Dispatcher.settled_of_work sound'.scheduler.running
    (Dispatcher.work?_tick rested.settled now)
  have rested' := rested.step closed still order made inside rfl settled
  refine ⟨proceeds, proceeds ▸ rested', ?_⟩
  intro name unwaiting
  have kind := kind_step closed rested.sound order.within made rested.kind
  have motionless := still_of_work fun e member => still e.task (kind e member)
  have prospect := steady.outlook motionless (goes name) inside
  rw [outlook_of_settled rested'.idle settled unwaiting, outlook_beginTick rested.sound] at prospect
  exact prospect

/-- The dispatcher is between two ticks, and all its tasks are swift. -/
def Calm (workers : Nat) (s : Dispatcher) : Prop :=
  ∃ now, Rested Task.Swift workers ⟨s, now, [], .proceed⟩

namespace Calm

variable {workers : Nat} {s : Dispatcher}

theorem sound (calm : Calm workers s) : s.scheduler.Sound := by
  obtain ⟨now, rested⟩ := calm
  exact rested.sound.scheduler

theorem swift (calm : Calm workers s) : ∀ e ∈ s.scheduler.entries, e.task.Swift := by
  obtain ⟨now, rested⟩ := calm
  exact rested.kind

theorem vacant (calm : Calm workers s) : s.Vacant := by
  obtain ⟨now, rested⟩ := calm
  exact rested.settled.vacant_of_swift rested.sound.scheduler rested.staffed rested.kind

/-- Something is done between two ticks that gives the workers nothing to do. -/
theorem step (calm : Calm workers s) {t : Dispatcher} {move : Move} (order : move.Order Task.Swift)
    (made : ∀ now, step? ⟨s, now, [], .proceed⟩ move = some ⟨t, now, [], .proceed⟩)
    (vacant : t.Vacant) : Calm workers t := by
  obtain ⟨now, rested⟩ := calm
  exact ⟨now, rested.step (fun _ _ => Task.Swift.congr) (fun _ swift => swift.1) order (made now)
    .refl rfl vacant.settled⟩

theorem start (calm : Calm workers s) : Calm workers s.start := by
  have order : Move.Order Task.Swift .start := trivial
  exact calm.step order (fun _ => rfl) calm.vacant.start

theorem setClock (calm : Calm workers s) (instant : Instant) :
    Calm workers { s with clock := instant } := by
  have vacant := calm.vacant
  have order : Move.Order Task.Swift (.act (.advance (instant.nanos - s.clock.nanos))) := trivial
  exact calm.step order (fun now => step?_advance s instant now .proceed)
    ⟨vacant.waiting, vacant.held⟩

/-- A tick evaluates the tasks, runs those that start, and goes on. -/
theorem tick (calm : Calm workers s) (free : ∀ e ∈ s.scheduler.entries, e.task.inProgress = false)
    (now : Instant) : (s.tick now).1 = .proceed ∧ Calm workers (s.tick now).2 ∧
      ∀ name, (s.tick now).2.view name =
        (if s.scheduler.enabled then (s.view name).evaluate now else s.view name).relax name := by
  obtain ⟨before, rested⟩ := calm
  obtain ⟨proceeds, rested', seen⟩ := rested.tick (fun _ _ => Task.Swift.congr)
    (fun _ swift => swift.1) (fun e member _ => free e member) now
  have after : Calm workers (s.tick now).2 := ⟨now, rested'⟩
  exact ⟨proceeds, after, fun name => seen name (by simp [after.vacant.waiting])⟩

end Calm

end Moment

end Cadence

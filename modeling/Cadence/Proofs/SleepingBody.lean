import Cadence.Proofs.Headroom
import Cadence.Proofs.SwiftTick

/-!
Workers that settle, when the body of one task may sleep and one task is critical.

No body but the sleeper's waits, so that whatever a worker holds between two ticks is a run of the sleeper
(`Moment.Lull.name_held`).  A worker to spare is therefore all it takes for the other tasks never to wait
(`Moment.Lull.headroom`), and the sleeper itself never waits (`Moment.Lull.not_waits`).  A tick that finds
the critical task not in progress, and a sleep of the control thread, lead from one such state to another;
what is seen of a task afterwards follows from what was seen before, if no job of it waits
(`Moment.Lull.tick`, `Moment.Lull.doze`, `Moment.Lull.rouse`).
-/

namespace Cadence

/-- A body that takes no time, and that does not wait unless the task is the sleeper; and no power to stop
a tick unless the task is the guard. -/
def Task.Light (sleeper guard : String) (t : Task) : Prop :=
  t.body.work = 0 ∧ (t.name ≠ sleeper → t.Brisk) ∧ (t.name ≠ guard → t.has .critical = false)

theorem Task.Light.congr {sleeper guard : String} {t t' : Task} (light : t.Light sleeper guard)
    (same : t'.spec = t.spec) : t'.Light sleeper guard := by
  have body : t'.body = t.body := Option.some.inj (congrArg Spec.body same)
  have named : t'.name = t.name := congrArg Spec.name same
  have capabilities : t'.capabilities = t.capabilities := congrArg Spec.capabilities same
  unfold Task.Light Task.Brisk Task.has at *
  rw [body, named, capabilities]
  exact light

/-- When the run of the task that is seen wakes, if there is one and it sleeps. -/
def View.wakes? (v : View) : Option Instant :=
  v.run.bind fun run => v.entry.bind (·.task.body.wakeTime? run.began)

/-- As long as nobody wakes, the passing of time lets no worker make a step. -/
theorem Dispatcher.Settled.setClock {s : Dispatcher} (settled : s.Settled) {instant : Instant}
    (late : ∀ t ∈ s.wakeTimes, instant < t) : Dispatcher.Settled { s with clock := instant } := by
  refine ⟨?_, settled.full⟩
  intro run held
  have blocked := settled.blocked run held
  apply Bool.eq_false_iff.mpr
  intro ready
  obtain ⟨task, present, ends⟩ := (Option.any_eq_true _ _).mp ready
  cases wait : task.body.wait with
  | nothing => simp [Dispatcher.ready, present, Body.ready, wait] at blocked
  | permit =>
    simp only [Dispatcher.ready, present, Option.any_some, Body.ready, wait] at blocked ends
    rw [ends] at blocked
    cases blocked
  | sleep length =>
    obtain ⟨t, wakes⟩ : ∃ t, task.body.wakeTime? run.began = some t := by simp [Body.wakeTime?, wait]
    have member : t ∈ s.wakeTimes := by
      apply List.mem_filterMap.mpr
      exact ⟨run, held, by rw [present, Option.bind_some, wakes]⟩
    simp only [Body.ready, wait, wakes, Option.all_some, decide_eq_true_eq] at ends
    exact absurd (late t member) (Int64.not_lt.mpr ends)

namespace Moment

/-- The control thread is between two ticks, the workers have settled, no body but the sleeper's waits,
and no task but the guard is critical. -/
structure Lull (sleeper guard : String) (workers : Nat) (s : Dispatcher) : Prop where
  rested : ∃ now, Rested (Task.Light sleeper guard) workers ⟨s, now, [], .proceed⟩
  traced : ∃ scheduler, Scheduler.create workers = .ok scheduler ∧
    Rests (Move.Within Unmarked fun _ => True) (.initial scheduler) s

namespace Lull

variable {sleeper guard name : String} {workers : Nat} {s : Dispatcher}
  (lull : Lull sleeper guard workers s)
include lull

theorem sound : s.scheduler.Sound := by
  obtain ⟨now, rested⟩ := lull.rested
  exact rested.sound.scheduler

theorem staffed : s.scheduler.Staffed := by
  obtain ⟨now, rested⟩ := lull.rested
  exact rested.staffed

theorem settled : s.Settled := by
  obtain ⟨now, rested⟩ := lull.rested
  exact rested.settled

theorem light {e : Entry} (member : e ∈ s.scheduler.entries) : e.task.Light sleeper guard := by
  obtain ⟨now, rested⟩ := lull.rested
  exact rested.kind e member

/-- As many jobs of a task are unfinished as are in progress. -/
theorem outstanding_eq (name : String) :
    s.scheduler.outstanding.count name = (s.scheduler.busy name).toNat := by
  obtain ⟨scheduler, created, now, verdict, reached⟩ := lull.traced
  exact reached.outstanding_eq created name

/-- Each event was counted as often as it was recorded. -/
theorem counted (event : Event) : s.sink.tally.count ⟨event, name⟩ =
    UInt64.ofNat ((s.view name).events.count event) := by
  obtain ⟨scheduler, created, now, verdict, reached⟩ := lull.traced
  rw [Dispatcher.count_events_view]
  exact reached.counted created _

/-- What is held is a run of the sleeper. -/
theorem name_held {run : Run} (held : run ∈ s.held) : run.name = sleeper := by
  obtain ⟨e, found, _⟩ := Dispatcher.busy_of_held lull.sound held
  by_contra other
  have named : e.task.name = run.name := Scheduler.entry?_name found
  have wait : e.task.body.wait = .nothing :=
    (lull.light (Scheduler.mem_of_found found)).2.1 (named ▸ other)
  have blocked := lull.settled.blocked run held
  simp [Dispatcher.ready, Scheduler.task?, found, Body.ready, wait] at blocked

/-- The sleeper is all that is held, if anything is. -/
theorem held_eq : s.held = (s.view sleeper).run.toList := by
  obtain ⟨_, once, _⟩ := Dispatcher.outstanding_parts lull.sound
  cases held : s.held with
  | nil => simp [Dispatcher.view, held]
  | cons run rest =>
    have named : run.name = sleeper := lull.name_held (held ▸ List.mem_cons_self)
    have alone : rest = [] := by
      apply List.eq_nil_iff_forall_not_mem.mpr
      intro other later
      have same : other.name = sleeper := lull.name_held (held ▸ List.mem_cons_of_mem _ later)
      rw [held, List.map_cons] at once
      refine (List.nodup_cons.mp once).1 ?_
      rw [named, ← same]
      exact List.mem_map_of_mem later
    simp [Dispatcher.view, held, alone, named]

/-- There is a worker to spare, if there are two or the sleeper does not run. -/
theorem headroom (spare : 2 ≤ workers ∨ (s.view sleeper).run = none) : s.Headroom := by
  obtain ⟨now, rested⟩ := lull.rested
  have crew : s.scheduler.workers = workers := rested.workers
  have positive := s.scheduler.workers_pos
  refine ⟨lull.settled, ?_⟩
  rw [lull.held_eq]
  rcases spare with two | none
  · have few : (s.view sleeper).run.toList.length ≤ 1 := by
      cases (s.view sleeper).run <;> simp
    omega
  · rw [none]
    exact positive

/-- With a worker to spare no task waits. -/
theorem waiting_eq_nil (spare : 2 ≤ workers ∨ (s.view sleeper).run = none) : s.waiting = [] :=
  (lull.headroom spare).waiting_eq_nil lull.staffed

/-- The sleeper does not wait for a worker, since only a run of it could keep one busy. -/
theorem not_waits : sleeper ∉ s.waiting := by
  intro waits
  obtain ⟨_, _, apart⟩ := Dispatcher.outstanding_parts lull.sound
  cases run : (s.view sleeper).run with
  | none =>
    rw [lull.waiting_eq_nil (.inr run)] at waits
    cases waits
  | some run' =>
    have held : run' ∈ s.held := by
      rw [lull.held_eq, run]
      exact List.mem_singleton_self run'
    exact apart sleeper waits run' held (lull.name_held held)

/-- With a worker to spare no task but the sleeper is in progress. -/
theorem free_of_spare (spare : 2 ≤ workers ∨ (s.view sleeper).run = none)
    (other : name ≠ sleeper) : s.scheduler.busy name = false := by
  cases found : s.scheduler.entry? name with
  | none => simp [Scheduler.busy, Scheduler.task?, found]
  | some e =>
    have named : e.task.name = name := Scheduler.entry?_name found
    have brisk := (lull.light (Scheduler.mem_of_found found)).2.1 (named ▸ other)
    exact (lull.headroom spare).free lull.staffed (lull.outstanding_eq name) found brisk

/-- Nobody but the sleeper wakes. -/
theorem wakeTimes_eq : s.wakeTimes = (s.view sleeper).wakes?.toList := by
  rw [Dispatcher.wakeTimes, lull.held_eq]
  cases run : (s.view sleeper).run with
  | none => simp [View.wakes?, run]
  | some run' =>
    have named : run'.name = sleeper := by
      apply lull.name_held
      rw [lull.held_eq, run]
      exact List.mem_singleton_self run'
    have seen : (s.view sleeper).entry = s.scheduler.entry? sleeper := rfl
    simp only [View.wakes?, run, seen, Option.toList_some, Option.bind_some, List.filterMap_cons,
      List.filterMap_nil, named, Scheduler.task?, Option.bind_map, Function.comp_def]
    cases (s.scheduler.entry? sleeper).bind (·.task.body.wakeTime? run'.began) <;> rfl

end Lull

/-! ## Preparations -/

/-- Before the pool exists, there is nothing that the workers could do. -/
theorem Lull.initial {sleeper guard : String} {workers : Nat} {scheduler : Scheduler}
    (created : Scheduler.create workers = .ok scheduler) :
    Lull sleeper guard workers { scheduler } :=
  ⟨⟨_, .initial created⟩, scheduler, created, _, _, .refl⟩

/-- Something is done between two ticks that gives the workers nothing to do. -/
theorem Lull.step {sleeper guard : String} {workers : Nat} {s t : Dispatcher} {move : Move}
    (lull : Lull sleeper guard workers s) (order : move.Order (Task.Light sleeper guard))
    (within : move.Within Unmarked fun _ => True)
    (made : ∀ now verdict, step? ⟨s, now, [], verdict⟩ move =
      some (withDispatcher ⟨s, now, [], verdict⟩ t)) (settled : t.Settled) :
    Lull sleeper guard workers t := by
  obtain ⟨now, rested⟩ := lull.rested
  obtain ⟨scheduler, created, rests⟩ := lull.traced
  have rested' : Rested (Task.Light sleeper guard) workers ⟨t, now, [], .proceed⟩ :=
    rested.step (fun _ _ => Task.Light.congr) (fun _ light => light.1) order (made now .proceed)
      .refl rfl settled
  exact ⟨⟨now, rested'⟩, scheduler, created, rests.move move within made⟩

/-! ## Ticks -/

variable {m m' : Moment} {move : Move} {sleeper guard name : String} {workers : Nat} {s : Dispatcher}
  {e : Entry}

/-- In a tick a task that is not in progress and not due stays so. -/
theorem Reaches.early (sound : m.Sound) (reached : Reaches Move.Inside m m')
    (found : m.dispatcher.scheduler.entry? name = some e) (early : m.now < e.due)
    (free : m.dispatcher.scheduler.busy name = false) : m'.now = m.now ∧
      m'.dispatcher.scheduler.busy name = false ∧
      ∃ e', m'.dispatcher.scheduler.entry? name = some e' ∧ e'.due = e.due := by
  induction reached with
  | refl => exact ⟨rfl, free, e, found, rfl⟩
  | @step m₁ m₂ move before inside made ih =>
    obtain ⟨same, free₁, e₁, found₁, due₁⟩ := ih
    have sound₁ := sound.of_reaches before
    have step := standing_step sound₁ made name
    have quiet : (m₁.turn name move).consumes = false := by
      apply Bool.eq_false_iff.mpr
      intro consumes
      obtain ⟨_, _, e₂, _, found₂, late⟩ := slot_of_consumes consumes
      rw [found₁] at found₂
      cases found₂
      rw [same, due₁] at late
      exact late early
    have unmarked : (m₁.turn name move).marks = false := by
      have within : move.Within Unmarked fun _ => True := inside.within
      have meaning := turn_within sound₁ (fun _ _ => trivial) within name
      cases turn : m₁.turn name move with
      | enrolled task instant =>
        rw [turn] at meaning
        exact meaning
      | _ => rfl
    refine ⟨?_, ?_, ?_⟩
    · rw [← same]
      cases makes made with
      | begun idle => cases inside
      | _ => rfl
    · rw [← busy_standing] at free₁ ⊢
      exact step.stays_free free₁ quiet unmarked
    · obtain ⟨e₂, found₂, _⟩ := step.lasts found₁
      refine ⟨e₂, found₂, ?_⟩
      rcases step.due_cases found₂ with ⟨_, _, _, missing, _⟩ | ⟨e₀, present, _, _, due⟩
      · rw [show (m₁.standing name).entry = some e₁ from found₁] at missing
        cases missing
      · rw [show (m₁.standing name).entry = some e₁ from found₁] at present
        cases present
        rw [due, quiet, ← due₁]
        rfl

namespace Lull

variable (lull : Lull sleeper guard workers s)
include lull

/-- A tick that finds the guard not in progress goes on to its end. -/
theorem tick (free : s.scheduler.busy guard = false) (now : Instant) : (s.tick now).1 = .proceed ∧
    Lull sleeper guard workers (s.tick now).2 ∧
    ∀ name, name ∉ (s.tick now).2.waiting → (s.tick now).2.view name =
      (if s.scheduler.enabled then (s.view name).evaluate now else s.view name).relax name := by
  have harmless : ∀ e ∈ s.scheduler.entries, e.task.has .critical = true →
      e.task.inProgress = false := by
    intro e member critical
    have named : e.task.name = guard := by
      by_contra other
      rw [(lull.light member).2.2 other] at critical
      cases critical
    have found := Scheduler.entry?_of_mem lull.sound.distinct member
    rw [named] at found
    rw [← Scheduler.busy_of_found found]
    exact free
  obtain ⟨before, rested⟩ := lull.rested
  obtain ⟨scheduler, created, rests⟩ := lull.traced
  obtain ⟨proceeds, rested', seen⟩ := rested.tick (fun _ _ => Task.Light.congr)
    (fun _ light => light.1) harmless now
  exact ⟨proceeds, ⟨⟨now, rested'⟩, scheduler, created, rests.tick now⟩, seen⟩

/-- In a tick a task that is not in progress and not due stays so. -/
theorem early (found : s.scheduler.entry? name = some e) {now : Instant} (early : now < e.due)
    (free : s.scheduler.busy name = false) : (s.tick now).2.scheduler.busy name = false ∧
      ∃ e', (s.tick now).2.scheduler.entry? name = some e' ∧ e'.due = e.due := by
  obtain ⟨before, rested⟩ := lull.rested
  have begun : step? ⟨s, before, [], .proceed⟩ (.tick now) =
      some (beginTick ⟨s, before, [], .proceed⟩ now) := rfl
  have inside : Reaches Move.Inside (beginTick ⟨s, before, [], .proceed⟩ now)
      ⟨(s.tick now).2, now, [], (s.tick now).1⟩ := tick_inside rfl
  have found' : s.opened.scheduler.entry? name = some e := by simpa using found
  have free' : s.opened.scheduler.busy name = false := by
    simpa [Scheduler.busy, Scheduler.task?] using free
  exact (inside.early (sound_step rested.sound begun) found' early free').2

/-! ## Sleeps -/

/-- Time passes up to an instant, and the workers settle. -/
theorem pass (instant : Instant) :
    Lull sleeper guard workers (Dispatcher.settle { s with clock := instant }) ∧
    ∀ name, name ∉ (Dispatcher.settle { s with clock := instant }).waiting →
      (Dispatcher.settle { s with clock := instant }).view name =
        View.relax { s.view name with clock := instant } name := by
  obtain ⟨now, rested⟩ := lull.rested
  obtain ⟨scheduler, created, rests⟩ := lull.traced
  have order : Move.Order (Task.Light sleeper guard)
      (.act (.advance (instant.nanos - s.clock.nanos))) := trivial
  have made := step?_advance s instant now .proceed
  have closed : ∀ t t' : Task, t.Light sleeper guard → t'.spec = t.spec → t'.Light sleeper guard :=
    fun _ _ => Task.Light.congr
  have still : ∀ t : Task, t.Light sleeper guard → t.body.work = 0 := fun _ light => light.1
  have worked : Reaches Move.Inside ⟨{ s with clock := instant }, now, [], .proceed⟩
      ⟨Dispatcher.settle { s with clock := instant }, now, [], .proceed⟩ :=
    (carries_inside.settle _ now [] .proceed).1
  have steady := rested.steady closed still order made
  have settled := Dispatcher.settled_of_work (steady.sound.of_reaches worked).scheduler.running
    (Dispatcher.work?_settle _)
  have rested' := rested.step closed still order made worked rfl settled
  refine ⟨⟨⟨now, rested'⟩, scheduler, created, (rests.setClock (fun _ => trivial) instant).settle⟩, ?_⟩
  intro name unwaiting
  have kind := kind_step closed rested.sound order.within made rested.kind
  have motionless := still_of_work fun e member => still e.task (kind e member)
  have goes : Goes ⟨{ s with clock := instant }, now, [], .proceed⟩ name := by
    intro e _ _ ahead
    cases ahead
  have prospect := steady.outlook motionless goes worked
  rw [outlook_of_settled rested'.idle settled unwaiting,
    outlook_order rested.sound order rested.idle made] at prospect
  rw [prospect]
  simp only [View.heed, Stage.order?, Option.map_some, Option.getD_some, View.order]
  rw [show (s.view name).clock = s.clock from rfl, Instant.advance_sub]

/-- Time passes up to an instant, before the sleeper wakes. -/
theorem doze {instant : Instant} (asleep : ∀ t ∈ (s.view sleeper).wakes?, instant < t) :
    s.sleepUntil instant = { s with clock := instant } ∧
      Lull sleeper guard workers { s with clock := instant } := by
  have late : ∀ t ∈ s.wakeTimes, instant < t := by
    rw [lull.wakeTimes_eq]
    exact fun t wakes => asleep t (Option.mem_toList.mp wakes)
  have nobody : s.wakeAll (· ≤ instant) = s := by
    apply Dispatcher.wakeAll_of_asleep
    exact fun t wakes => decide_eq_false (Int64.not_le.mpr (late t wakes))
  have rests : Dispatcher.settle { s with clock := instant } = { s with clock := instant } :=
    exhaust_of_none (Dispatcher.work?_of_settled (lull.settled.setClock late)) _
  have passed := (lull.pass instant).1
  rw [rests] at passed
  exact ⟨by rw [Dispatcher.sleepUntil, nobody], passed⟩

/-- The sleeper wakes at the end of a sleep. -/
theorem rouse {instant : Instant} (wakes : (s.view sleeper).wakes? = some instant)
    (ahead : s.clock < instant)
    (ends : (View.relax { s.view sleeper with clock := instant } sleeper).run = none) :
    s.sleepUntil instant = Dispatcher.settle { s with clock := instant } := by
  obtain ⟨awake, seen⟩ := lull.pass instant
  have view := seen sleeper awake.not_waits
  have clock : (Dispatcher.settle { s with clock := instant }).clock = instant := by
    have kept := (View.controls_relax { s.view sleeper with clock := instant } sleeper).1
    rw [← view] at kept
    exact kept
  have nobody : Dispatcher.wake? (· ≤ instant) (Dispatcher.settle { s with clock := instant }) = none := by
    have none : (Dispatcher.settle { s with clock := instant }).wakeTimes = [] := by
      rw [awake.wakeTimes_eq, View.wakes?, view, ends]
      rfl
    rw [Dispatcher.wake?, none]
    rfl
  have woken : Dispatcher.wake? (· ≤ instant) s =
      some (Dispatcher.settle { s with clock := instant }) := by
    have times : s.wakeTimes = [instant] := by rw [lull.wakeTimes_eq, wakes]; rfl
    have now : s.clock.later instant = instant := by rw [Instant.later, if_pos ahead]
    have within : decide (instant ≤ instant) = true := decide_eq_true (Int64.le_refl _)
    simp only [Dispatcher.wake?, times, List.filter_cons, within, if_true, List.filter_nil,
      Instant.earliest?, List.foldl_nil, Option.map_some, now]
  have asleep : s.wakeAll (· ≤ instant) = Dispatcher.settle { s with clock := instant } := by
    have heavy := Dispatcher.weight_wake? woken
    unfold Dispatcher.wakeAll
    obtain ⟨n, weight⟩ := Nat.exists_eq_add_one.mpr (Nat.zero_lt_of_lt heavy)
    rw [weight, exhaust, woken]
    exact exhaust_of_none nobody n
  rw [Dispatcher.sleepUntil, asleep]
  exact congrArg (fun clock => { Dispatcher.settle { s with clock := instant } with clock }) clock.symm

end Lull

end Moment

end Cadence

import Mathlib.Order.Bounds.Defs
import Cadence.Proofs.SwiftLoop

/-!
A run for a time makes its ticks at the shortest interval, and serves every slot that comes due.

Tasks whose bodies neither wait nor take time are registered for one instant (`Move.Prepares`), and the
loop is run from that instant on.  It makes every tick that comes before the deadline, and no other; a
task consumes its `k`-th slot in the first tick that does not come before it; the mode decides once and
for all whether the slots of a task are runs or events (`Moment.run_ticks_at_min_interval`).
-/

namespace Cadence

/-- What is done before a run: tasks are registered for an instant, and controls are set.  The tasks are
new, and their bodies neither wait nor move the clock. -/
def Move.Prepares (start : Instant) : Move → Prop
  | .register (some task) instant =>
    instant = start ∧ task.Fresh ∧ task.Healthy ∧ task.Swift
  | .register none _ | .start | .note _ => True
  | .act (.setMode _) | .act (.setEnabled _) | .act (.setContention _) | .act (.advance _) => True
  | .act (.setHealth _ _) | .act (.permit _) | .act (.raise _) => False
  | .tick _ | .chore | .hook _ | .take | .finish _ => False

theorem Move.Prepares.order {start : Instant} {move : Move} (prepares : move.Prepares start) :
    move.Order Task.Swift := by
  cases move with
  | register task instant =>
    cases task with
    | none => trivial
    | some new => exact prepares.2.2.2
  | start | note line | act action => trivial
  | _ => cases prepares

/-- So many slots of a task were consumed.  Its due time says so, and so do its runs, if the mode admits
the task, or else its events; and there are no other events of it. -/
structure Dispatcher.Spent (start : Instant) (mode : Mode) (slots : Nat) (e : Entry)
    (s : Dispatcher) : Prop where
  due : (s.scheduler.due? e.task.name).map (·.nanos.toInt) =
    some (start.slotTime e.task.interval (slots + 1))
  runs : (s.scheduler.task? e.task.name).map (·.stats.runs.toNat) =
    some (if e.task.admittedBy mode then slots else 0)
  events : (s.view e.task.name).events =
    List.replicate (if e.task.admittedBy mode then 0 else slots) .skippedForMode

/-- A tick consumes the slot of this number: it is the next slot of the task before the tick, and the
one that follows it is the next one after the tick. -/
def Wake.Takes (start : Instant) (e : Entry) (k : Nat) (w : Wake Dispatcher) : Prop :=
  (w.before.scheduler.due? e.task.name).map (·.nanos.toInt) =
      some (start.slotTime e.task.interval k) ∧
    (w.after.scheduler.due? e.task.name).map (·.nanos.toInt) =
      some (start.slotTime e.task.interval (k + 1))

/-- A task is punctual in a run. -/
structure Entry.Punctual (start : Instant) (first : Dispatcher) (wakes : List (Wake Dispatcher))
    (last : Dispatcher) (e : Entry) : Prop where
  /-- As many slots are consumed as intervals of the task pass up to the last tick. -/
  total : last.Spent start first.scheduler.mode
    (wakes.length * first.scheduler.minInterval.toNat / e.task.interval.toNat) e
  /-- The `k`-th slot is consumed in the first tick that does not come before it. -/
  slot : ∀ n, (within : n < wakes.length) → ∀ k, wakes[n].Takes start e k ↔
    n + 1 = (k * e.task.interval.toNat) ⌈/⌉ first.scheduler.minInterval.toNat
  /-- It is accounted for after each tick. -/
  each : ∀ n, (within : n < wakes.length) → wakes[n].after.Spent start first.scheduler.mode
    ((n + 1) * first.scheduler.minInterval.toNat / e.task.interval.toNat) e
  /-- After each tick the task is up to date. -/
  upToDate : ∀ w ∈ wakes, ∀ due ∈ w.after.scheduler.due? e.task.name, w.now < due

/-- A run for a time keeps time. -/
structure KeepsTime (start : Instant) (duration : Millis) (first : Dispatcher)
    (wakes : List (Wake Dispatcher)) (last : Dispatcher) : Prop where
  /-- It ends when the time is over. -/
  clock : last.clock.nanos.toInt = start.nanos.toInt + duration.count.toInt * 1000000
  shortest : IsLeast { d | ∃ e ∈ first.scheduler.entries, e.task.interval.toNat = d }
    first.scheduler.minInterval.toNat
  /-- It makes the ticks, a shortest interval apart, that come before it ends. -/
  instants : wakes.map (·.now.nanos.toInt) =
    (List.range (duration.toNat ⌈/⌉ first.scheduler.minInterval.toNat - 1)).map fun n =>
      start.slotTime first.scheduler.minInterval (n + 1)
  tasks : ∀ e ∈ first.scheduler.entries, e.Punctual start first wakes last
  /-- There are no events but those of the tasks. -/
  events : ∀ key ∈ last.sink.events, key.name ∈ first.scheduler.names

/-! ## Before the run -/

namespace Dispatcher.Primed

variable {start : Instant} {workers : Nat} {s t : Dispatcher}

/-- A change that the tasks do not notice, and after which there is still nothing to do. -/
theorem change (primed : Primed start workers s) (calm : Moment.Calm workers t) {f : Entry → Entry}
    (entries : t.scheduler.entries = s.scheduler.entries.map f)
    (light : ∀ e, (f e).due = e.due ∧ (f e).task.interval = e.task.interval ∧
      (e.task.Fresh → (f e).task.Fresh) ∧ (e.task.Healthy → (f e).task.Healthy))
    (interval : t.scheduler.minInterval = s.scheduler.minInterval)
    (sink : t.sink = s.sink) : Primed start workers t := by
  constructor
  · exact calm
  · intro e' member
    rw [entries] at member
    obtain ⟨e, old, rfl⟩ := List.mem_map.mp member
    obtain ⟨due, fresh, healthy⟩ := primed.tasks e old
    obtain ⟨due', interval', fresh', healthy'⟩ := light e
    exact ⟨by rw [due', interval', due], fresh' fresh, healthy' healthy⟩
  · rw [sink]
    exact primed.silent
  · intro e' member
    rw [entries] at member
    obtain ⟨e, old, rfl⟩ := List.mem_map.mp member
    rw [interval, (light e).2.1]
    exact primed.least e old
  · rw [interval, entries]
    rcases primed.attained with longest | ⟨e, old, same⟩
    · exact .inl longest
    · exact .inr ⟨f e, List.mem_map_of_mem old, (light e).2.1.trans same⟩

theorem congr (primed : Primed start workers s) (calm : Moment.Calm workers t)
    (entries : t.scheduler.entries = s.scheduler.entries)
    (interval : t.scheduler.minInterval = s.scheduler.minInterval) (sink : t.sink = s.sink) :
    Primed start workers t := by
  refine primed.change calm (f := id) ?_ (fun e => ⟨rfl, rfl, id, id⟩) interval sink
  rw [entries, List.map_id]

/-- One more task is registered. -/
theorem enroll (primed : Primed start workers s) {new : Task} (fresh : new.Fresh)
    (healthy : new.Healthy)
    (calm : Moment.Calm workers { s with scheduler := s.scheduler.enroll new start }) :
    Primed start workers { s with scheduler := s.scheduler.enroll new start } := by
  have least := s.scheduler.minInterval.toInt_shorter new.interval
  constructor
  · exact calm
  · intro e member
    rcases List.mem_append.mp member with old | new
    · exact primed.tasks e old
    · rw [List.mem_singleton] at new
      subst new
      exact ⟨rfl, fresh, healthy⟩
  · exact primed.silent
  · intro e member
    show (s.scheduler.minInterval.shorter new.interval).count.toInt ≤ e.task.interval.count.toInt
    rw [least]
    rcases List.mem_append.mp member with old | new
    · exact (min_le_left _ _).trans (primed.least e old)
    · rw [List.mem_singleton] at new
      subst new
      exact min_le_right _ _
  · show s.scheduler.minInterval.shorter new.interval = .longest ∨
      ∃ e ∈ s.scheduler.entries ++ [_],
        e.task.interval = s.scheduler.minInterval.shorter new.interval
    unfold Millis.shorter
    split
    · exact .inr ⟨_, List.mem_append_right _ (List.mem_singleton_self _), rfl⟩
    · rcases primed.attained with longest | ⟨e, old, same⟩
      · exact .inl longest
      · exact .inr ⟨e, List.mem_append_left _ old, same⟩

end Dispatcher.Primed

namespace Moment

variable {m m' : Moment} {move : Move} {start : Instant} {workers : Nat} {scheduler : Scheduler}

theorem primed_step (primed : Dispatcher.Primed start workers m.dispatcher)
    (idle : m.chores = []) (prepares : move.Prepares start) (made : m.step? move = some m') :
    m'.chores = [] ∧ Dispatcher.Primed start workers m'.dispatcher := by
  have calm := primed.calm
  have vacant := calm.vacant
  have order := prepares.order
  cases makes made with
  | @registered new instant _ unrefused unstarted unregistered =>
    obtain ⟨rfl, fresh, healthy, _⟩ := prepares
    refine ⟨idle, primed.enroll fresh healthy (calm.step order ?_ ⟨vacant.waiting, vacant.held⟩)⟩
    intro now
    exact step?_register (m := ⟨m.dispatcher, now, [], .proceed⟩) rfl unrefused _
  | refused _ refused => exact ⟨idle, primed⟩
  | started _ =>
    refine ⟨idle, primed.congr calm.start ?_ ?_ ?_⟩ <;> simp [withDispatcher, Scheduler.start]
  | @noted line _ =>
    have calm' : Calm workers (m.dispatcher.note line.level line.text) :=
      calm.step order (fun _ => rfl) ⟨vacant.waiting, vacant.held⟩
    exact ⟨idle, primed.congr calm' rfl rfl rfl⟩
  | @acted action t done =>
    obtain ⟨pool, _⟩ := Dispatcher.pool_act done
    have waiting : t.waiting = [] := by
      rw [← vacant.waiting, Dispatcher.waiting, Dispatcher.waiting, pool]
    have held : t.held = [] := by
      rw [← vacant.held, Dispatcher.held, Dispatcher.held, pool]
    have calm' : Calm workers t := calm.step order
      (fun now => by simp [step?, done, withDispatcher]) ⟨waiting, held⟩
    refine ⟨idle, ?_⟩
    cases action with
    | setMode mode =>
      cases done
      apply primed.congr calm' <;> simp [Dispatcher.setMode]
    | setEnabled on =>
      cases done
      apply primed.congr calm' <;> simp [Dispatcher.setEnabled]
    | setContention on =>
      cases done
      exact primed.change calm' (f := fun e => { e with task := { e.task with contention := on } })
        rfl (fun e => ⟨rfl, rfl, id, id⟩) rfl rfl
    | advance ns =>
      cases done
      exact primed.congr calm' rfl rfl rfl
    | _ => cases prepares
  | _ => cases prepares

/-- Preparations lead to tasks to which nothing happened since they were registered. -/
theorem Reaches.primed (created : Scheduler.create workers = .ok scheduler)
    (prepared : Reaches (Move.Prepares start) (initial scheduler) m) :
    Dispatcher.Primed start workers m.dispatcher := by
  have kept : m.chores = [] ∧ Dispatcher.Primed start workers m.dispatcher := by
    induction prepared with
    | refl =>
      have rested : Rested Task.Swift workers (initial scheduler) := .initial created
      refine ⟨rfl, ?_⟩
      obtain ⟨_, rfl⟩ := Scheduler.eq_of_create created
      constructor
      · exact ⟨_, rested⟩
      · simp [initial]
      · rfl
      · simp [initial]
      · exact .inl rfl
    | step before prepares made ih => exact primed_step ih.2 ih.1 prepares made
  exact kept.2

end Moment

/-! ## The run -/

namespace Dispatcher

variable {start : Instant} {workers : Nat} {first s last : Dispatcher} {n : Nat} {e : Entry}

theorem Beat.spent (beat : Beat start workers first n s) (member : e ∈ first.scheduler.entries) :
    s.Spent start first.scheduler.mode
      (n * first.scheduler.minInterval.toNat / e.task.interval.toNat) e := by
  obtain ⟨e', same, paced⟩ := beat.tasks e member
  have interval : e'.task.interval = e.task.interval := congrArg Spec.interval same
  have capabilities : e'.task.capabilities = e.task.capabilities := congrArg Spec.capabilities same
  have seen : s.scheduler.entry? e.task.name = some e' := paced.startable.entry
  have admitted : e'.task.admittedBy (s.view e.task.name).mode =
      e.task.admittedBy first.scheduler.mode := by
    have mode : (s.view e.task.name).mode = first.scheduler.mode := beat.mode
    rw [mode, Task.admittedBy, Task.admittedBy, Task.has, Task.has, capabilities]
  constructor
  · rw [Scheduler.due?, seen, Option.map_some, Option.map_some, paced.due, interval]
    rfl
  · rw [Scheduler.task?, seen, Option.map_some, Option.map_some, paced.runs, admitted]
    rfl
  · rw [paced.events, admitted]
    rfl

/-- At an instant a number of ticks after the start no slot is due if those were consumed that have come
due by then. -/
theorem Beat.upToDate (primed : Primed start workers first) (some : first.scheduler.entries ≠ [])
    (beat : Beat start workers first n s) (member : e ∈ first.scheduler.entries) {now : Instant}
    (comes : now.nanos.toInt = start.slotTime first.scheduler.minInterval n) :
    ∀ due ∈ s.scheduler.due? e.task.name, now < due := by
  intro due next
  have value := (beat.spent member).due
  rw [Option.mem_def.mp next, Option.map_some, Option.some_inj] at value
  rw [Instant.lt_iff, Int64.lt_iff_toInt_lt, comes, value]
  exact (e.slotsAfter_le_iff (primed.positive some).le start).mp (Nat.le_refl _)

/-- There are no events but those of the registered tasks. -/
theorem Beat.registered (beat : Beat start workers first n s) :
    ∀ key ∈ s.sink.events, key.name ∈ first.scheduler.names := by
  intro key recorded
  by_contra unregistered
  have silent := (beat.others key.name unregistered).2
  have seen : key.event ∈ (s.view key.name).events :=
    List.mem_filterMap.mpr ⟨key, recorded, by simp [Tally.Key.of?]⟩
  rw [silent] at seen
  cases seen

theorem Primed.isLeast (primed : Primed start workers first) (some : first.scheduler.entries ≠ []) :
    IsLeast { d | ∃ e ∈ first.scheduler.entries, e.task.interval.toNat = d }
      first.scheduler.minInterval.toNat := by
  constructor
  · obtain ⟨e, member, same⟩ := primed.shortest some
    exact ⟨e, member, by rw [Millis.toNat, Millis.toNat, same]⟩
  · rintro d ⟨e, member, rfl⟩
    exact primed.short e member

/-- A tick takes the slot that comes due in it. -/
theorem Ticked.takes_iff {w : Wake Dispatcher} (ticked : Ticked start workers first n w)
    (primed : Primed start workers first) (some : first.scheduler.entries ≠ [])
    (member : e ∈ first.scheduler.entries) (k : Nat) : w.Takes start e k ↔
      n + 1 = (k * e.task.interval.toNat) ⌈/⌉ first.scheduler.minInterval.toNat := by
  have positive := primed.positive some
  have length := Millis.toInt_count positive.le
  rw [Wake.Takes, (ticked.before.spent member).due, (ticked.after.spent member).due,
    Option.some_inj, Option.some_inj, Instant.slotTime_inj, Instant.slotTime_inj,
    Nat.add_right_cancel_iff]
  exact e.slot_iff (by omega) (primed.short e member)

namespace Kept

variable {diary : History (Wake Dispatcher)} (kept : Kept start workers first n diary)
include kept

theorem ticked {i : Nat} (within : i < diary.all.length) :
    Ticked start workers first i diary.all[i] :=
  kept.wakes i diary.all[i] (List.getElem?_eq_getElem within)

theorem instants : diary.all.map (·.now.nanos.toInt) =
    (List.range n).map fun i => start.slotTime first.scheduler.minInterval (i + 1) := by
  apply List.ext_getElem
  · rw [List.length_map, List.length_map, List.length_range, kept.length]
  · intro i within _
    rw [List.length_map] at within
    simpa using (kept.ticked within).comes

/-- A run that was kept in the diary up to the end was punctual. -/
theorem punctual (primed : Primed start workers first) (some : first.scheduler.entries ≠ [])
    (beat : Beat start workers first n last) (member : e ∈ first.scheduler.entries) :
    e.Punctual start first diary.all last := by
  constructor
  · rw [kept.length]
    exact beat.spent member
  · intro i within
    exact (kept.ticked within).takes_iff primed some member
  · intro i within
    exact (kept.ticked within).after.spent member
  · intro w made
    obtain ⟨i, within, rfl⟩ := List.getElem_of_mem made
    have ticked := kept.ticked within
    exact ticked.after.upToDate primed some member ticked.comes

end Kept

end Dispatcher

namespace Moment

variable {m : Moment} {start : Instant} {duration : Millis} {workers rounds : Nat}
  {scheduler : Scheduler}

/-- A run for a time, from the instant on for which swift tasks were registered, ends when the time is
over, and keeps time. -/
theorem run_ticks_at_min_interval (created : Scheduler.create workers = .ok scheduler)
    (prepared : Reaches (Move.Prepares start) (initial scheduler) m)
    (enabled : m.dispatcher.scheduler.enabled = true)
    (some : m.dispatcher.scheduler.entries ≠ []) (now : m.dispatcher.clock = start)
    (forward : 0 ≤ duration.count) (fits : Dispatcher.Fits start duration m.dispatcher)
    (enough : m.dispatcher.ticksIn duration < rounds) : ∃ diary last,
      Dispatcher.host.run (.some duration) rounds m.dispatcher = (.exit .timeLimit, last) ∧
      Dispatcher.host.diary.run (.some duration) rounds ([], m.dispatcher) =
        (.exit .timeLimit, diary, last) ∧
      KeepsTime start duration m.dispatcher diary.all last := by
  have primed := prepared.primed created
  have zero : (0 : Int64).toInt = 0 := by decide
  have forward : 0 ≤ duration.count.toInt := zero ▸ Int64.le_iff_toInt_le.mp forward
  obtain ⟨diary, last, run, kept, beat, ends⟩ :=
    primed.run some fits forward enabled now enough
  have plain := Dispatcher.host.run_diary (.some duration) rounds [] m.dispatcher
  rw [run] at plain
  refine ⟨diary, last, plain, run, ?_⟩
  constructor
  · rw [ends]
    exact Instant.toInt_after forward fits.deadline
  · exact primed.isLeast some
  · exact kept.instants
  · intro e member
    exact kept.punctual primed some beat member
  · exact beat.registered

/-! ## A sample run

Two tasks, one of which the mode does not admit.  The run lasts for five of the shorter intervals, so that
there are four ticks. -/

namespace Metronome

/-- A telemetry task, whose body would fail. -/
def eager : Task where
  name := "eager"
  interval := ⟨400⟩
  capabilities := .telemetry
  body := { ending := .failsSilently }
  name_ne := by decide
  interval_pos := by decide

def moves : List Move :=
  [.register (some Sample.brief) .epoch, .register (some eager) .epoch, .act (.setEnabled true)]

/-- The dispatcher before the run. -/
def first : Dispatcher := (lead (initial Sample.scheduler) moves).2.dispatcher

end Metronome

/-- In the sample each of the four slots of the eager task is skipped. -/
theorem run_ticks_at_min_interval_sample :
    (Dispatcher.host.run (some ⟨2000⟩) 5 Metronome.first).2.sink.events.length = 4 ∧
      ∃ diary last,
        Dispatcher.host.run (some ⟨2000⟩) 5 Metronome.first = (.exit .timeLimit, last) ∧
        Dispatcher.host.diary.run (some ⟨2000⟩) 5 ([], Metronome.first) =
          (.exit .timeLimit, diary, last) ∧
        KeepsTime .epoch ⟨2000⟩ Metronome.first diary.all last := by
  have prepared : Reaches (Move.Prepares .epoch) (initial Sample.scheduler)
      (lead (initial Sample.scheduler) Metronome.moves).2 := by
    refine (passes_lead ?_ (by decide +kernel)).reaches
    simp [Metronome.moves, Metronome.eager, Sample.brief, Move.Prepares, Task.Fresh, Task.Healthy,
      Task.Swift]
  refine ⟨by decide +kernel, ?_⟩
  refine run_ticks_at_min_interval Sample.created prepared (by decide +kernel) (by decide +kernel)
    (by decide +kernel) (by decide +kernel) ?_ (by decide +kernel)
  constructor
  · decide +kernel
  · decide +kernel
  · decide +kernel

end Moment

end Cadence

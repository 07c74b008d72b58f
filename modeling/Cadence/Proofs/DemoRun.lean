import Cadence.Proofs.DemoTicks
import Cadence.Proofs.Grammar

/-!
The demonstration, from its start to its end.

The printer wakes first at the end of each second, and nobody notices (`Demo.Scene.sleeps`).  So the loop
goes from each state after a number of ticks to the next one (`Demo.Scene.round_ticks`), makes all ticks
that come before the end of the last second, and ends there (`Demo.Scene.loop`).  What is counted in the
end can be read off the last state (`Demo.exits_with_final_counts`).
-/

namespace Cadence.Demo

variable {o : Options} {s : Dispatcher} {n : Nat} {instant : Instant}

/-! ## The printer -/

section

variable {d : Demo}

theorem clock_sleepUntil (instant : Instant) (tables : Nat) (d : Demo) :
    (sleepUntil instant tables d).dispatcher.clock = instant := by
  induction tables generalizing d with
  | zero => rfl
  | succ tables ih =>
    unfold sleepUntil
    split
    · exact ih _
    · rfl

/-- No table is due in a sleep. -/
theorem sleepUntil_of_lt (early : instant < d.nextTable) (tables : Nat) :
    sleepUntil instant tables d = { d with dispatcher := d.dispatcher.sleepUntil instant } := by
  cases tables with
  | zero => rfl
  | succ tables => exact if_neg (Int64.not_le.mpr early)

/-- A table is due at the end of a sleep in which nobody wakes. -/
theorem sleepUntil_of_due (due : d.nextTable = instant)
    (asleep : ∀ t ∈ d.dispatcher.wakeTimes, instant < t) :
    (sleepUntil instant (d.tablesDue instant) d).dispatcher = d.dispatcher.sleepUntil instant ∧
    (sleepUntil instant (d.tablesDue instant) d).nextTable = instant.after tablePeriod := by
  have single : d.tablesDue instant = 1 := by
    have none : instant.since d.nextTable = 0 := by
      rw [due]
      exact Int64.sub_self instant.nanos
    rw [tablesDue, none]
    decide
  have before : d.dispatcher.wakeAll (· < d.nextTable) = d.dispatcher := by
    apply Dispatcher.wakeAll_of_asleep
    rw [due]
    exact fun t wakes => decide_eq_false (Int64.not_lt.mpr (Int64.le_of_lt (asleep t wakes)))
  have late : ∀ t ∈ d.dispatcher.wakeTimes, decide (t ≤ instant) = false :=
    fun t wakes => decide_eq_false (Int64.not_le.mpr (asleep t wakes))
  have after : Dispatcher.wakeAll (· ≤ instant) { d.dispatcher with clock := instant } =
      { d.dispatcher with clock := instant } := Dispatcher.wakeAll_of_asleep late
  have now : d.nextTable ≤ instant := by
    rw [due]
    exact Int64.le_refl _
  rw [single, sleepUntil, if_pos now, before, due]
  refine ⟨?_, rfl⟩
  show Dispatcher.sleepUntil { d.dispatcher with clock := instant } instant = _
  rw [Dispatcher.sleepUntil, after, Dispatcher.sleepUntil, Dispatcher.wakeAll_of_asleep late]

end

/-! ## The loop -/

/-- The demonstration after a number of ticks. -/
structure Scene (o : Options) (n : Nat) (d : Demo) : Prop where
  beat : Beat o n d.dispatcher
  clock : d.dispatcher.clock.nanos.toInt = n * (gap o.overload).toNat * 1000000
  /-- A table comes due at the end of each second. -/
  table : d.nextTable.nanos.toInt = (n * (gap o.overload).toNat / 1000 + 1 : Nat) * 1000000000

variable {d : Demo} {last : Instant}

/-- A sleep is due that begins at the last wake-up. -/
theorem nextSleep_eq (gap : Millis) (last : Instant) (d : Demo) :
    host.nextSleep gap (some last) d.dispatcher.clock d =
      (Host.sleepLength gap 0 (some (last.since d.dispatcher.clock)), d) := by
  have elapsed : d.dispatcher.clock.since d.dispatcher.clock = 0 :=
    Int64.sub_self d.dispatcher.clock.nanos
  rw [← elapsed]
  rfl

/-- A round of the loop that sleeps. -/
theorem round_eq {gap : Millis}
    (positive : 0 < (Host.sleepLength gap 0 (some (last.since d.dispatcher.clock))).count) :
    host.round gap (some last) d.dispatcher.clock d =
      host.wakeUp (some last) (d.dispatcher.nextWake gap last)
        (sleepUntil (d.dispatcher.nextWake gap last) (d.tablesDue (d.dispatcher.nextWake gap last)) d) := by
  have next := nextSleep_eq gap last d
  have wake : d.dispatcher.nextWake gap last = d.dispatcher.clock.after
      (Host.sleepLength gap 0 (some (last.since d.dispatcher.clock))) := if_pos positive
  have slept : host.sleep (Host.sleepLength gap 0 (some (last.since d.dispatcher.clock))) d =
      .slept (sleepUntil (d.dispatcher.nextWake gap last)
        (d.tablesDue (d.dispatcher.nextWake gap last)) d) := by
    rw [wake]
    rfl
  have read : ∀ d : Demo, host.read d = (d.dispatcher.clock, d) := fun _ => rfl
  simp only [Host.round, Host.pause, Host.sleepIfPositive, next, if_pos positive, slept, read,
    clock_sleepUntil]

/-- A second ends with the next tick, or not before it. -/
theorem second_cases (overload : Bool) (n : Nat) :
    (n + 1) * (gap overload).toNat < (n * (gap overload).toNat / 1000 + 1) * 1000 ∧
      (n + 1) * (gap overload).toNat / 1000 = n * (gap overload).toNat / 1000 ∨
    (n + 1) * (gap overload).toNat = (n * (gap overload).toNat / 1000 + 1) * 1000 := by
  rcases gap_cases overload with ten | fifty
  · rw [ten]
    omega
  · rw [fifty]
    omega

namespace Scene

variable (scene : Scene o n d) (fits : o.seconds * 1000000000 < 2 ^ 63)
include scene fits

/-- After a tick the loop sleeps up to the next one. -/
theorem wakes (within : (n + 1) * (gap o.overload).toNat ≤ 1000 * o.seconds)
    (deadline : last.nanos.toInt = o.seconds * 1000000000) :
    0 < (Host.sleepLength (gap o.overload) 0 (some (last.since d.dispatcher.clock))).count ∧
    (d.dispatcher.nextWake (gap o.overload) last).nanos.toInt =
      (n + 1) * (gap o.overload).toNat * 1000000 := by
  have forward := gap_forward o.overload
  have clock := scene.clock
  have zero : (0 : Int64).toInt = 0 := by decide
  obtain ⟨rest, split⟩ := Nat.exists_eq_add_of_le within
  have remaining : last.nanos.toInt = d.dispatcher.clock.nanos.toInt +
      ((gap o.overload).toNat + rest : Nat) * 1000000 := by
    rw [clock, deadline]
    zify at split
    push_cast
    linarith
  have small : (((gap o.overload).toNat + rest : Nat) : Int) * 1000000 < 2 ^ 63 := by
    have total := last.nanos.toInt_lt
    have low : 0 ≤ d.dispatcher.clock.nanos.toInt := by
      rw [clock]
      exact_mod_cast Nat.zero_le (n * (gap o.overload).toNat * 1000000)
    omega
  have whole : (last.since d.dispatcher.clock).toInt =
      ((gap o.overload).toNat + rest : Nat) * 1000000 := by
    rw [Instant.toInt_since (by omega) (by omega)]
    omega
  have length := Host.toInt_sleepLength_of_whole forward whole
  have woken := Dispatcher.toInt_nextWake forward remaining small
  rw [Nat.min_eq_left (Nat.le_add_right _ _)] at length woken
  constructor
  · rw [Int64.lt_iff_toInt_lt, zero, length]
    rcases gap_cases o.overload with ten | fifty <;> omega
  · rw [woken, clock]
    ring

/-- In the sleep the printer may print a table, and nobody else notices. -/
theorem sleeps (comes : instant.nanos.toInt = (n + 1) * (gap o.overload).toNat * 1000000) :
    (sleepUntil instant (d.tablesDue instant) d).dispatcher = d.dispatcher.sleepUntil instant ∧
    ((n + 1) * (gap o.overload).toNat < 1000 * o.seconds →
      (sleepUntil instant (d.tablesDue instant) d).nextTable.nanos.toInt =
        ((n + 1) * (gap o.overload).toNat / 1000 + 1 : Nat) * 1000000000) := by
  have table := scene.table
  have later : instant.nanos.toInt = ((n + 1) * (gap o.overload).toNat : Nat) * 1000000 := by
    rw [comes]
    push_cast
    rfl
  rcases second_cases o.overload n with ⟨before, same⟩ | whole
  · have early : instant < d.nextTable := by
      rw [Instant.lt_iff, Int64.lt_iff_toInt_lt, later, table]
      omega
    rw [sleepUntil_of_lt early, same]
    exact ⟨rfl, fun _ => table⟩
  · have due : d.nextTable = instant := by
      apply Instant.toInt_inj.mp
      rw [later, table, whole]
      push_cast
      ring
    have asleep : ∀ t ∈ d.dispatcher.wakeTimes, instant < t := by
      rw [scene.beat.lull.wakeTimes_eq]
      intro t wakes
      obtain ⟨overloads, rfl, _, _, few⟩ :=
        scene.beat.le_of_wakes scene.clock (Option.mem_toList.mp wakes)
      rw [Instant.lt_iff, Int64.lt_iff_toInt_lt, later, toInt_ends, overloads.toNat_gap]
      rw [overloads.toNat_gap] at whole
      omega
    obtain ⟨same, printed⟩ := sleepUntil_of_due due asleep
    refine ⟨same, fun sooner => ?_⟩
    have period : tablePeriod.count.toInt = 1000 := by decide
    rw [printed, Instant.toInt_after (by omega) (by rw [later, period]; omega), later, period]
    omega

/-- Before the deadline a round of the loop makes a tick. -/
theorem round_ticks (sooner : (n + 1) * (gap o.overload).toNat < 1000 * o.seconds)
    (deadline : last.nanos.toInt = o.seconds * 1000000000) : ∃ d', Scene o (n + 1) d' ∧
      host.round (gap o.overload) (some last) d.dispatcher.clock d =
        (.ok d'.dispatcher.clock, d') := by
  obtain ⟨positive, woken⟩ := scene.wakes fits sooner.le deadline
  rw [round_eq positive]
  generalize d.dispatcher.nextWake (gap o.overload) last = instant at woken
  obtain ⟨slept, table⟩ := scene.sleeps fits woken
  have clock := clock_sleepUntil instant (d.tablesDue instant) d
  have beat := scene.beat.sleep scene.clock woken
  rw [← slept] at beat
  generalize sleepUntil instant (d.tablesDue instant) d = u at table clock beat
  obtain ⟨proceeds, next, same⟩ := beat.tick clock woken sooner fits
  have early : ¬ last ≤ instant := by
    rw [Instant.le_iff, Int64.le_iff_toInt_le, deadline, woken]
    zify at sooner
    linarith
  have ticked : host.tick instant u = (.proceed, { u with dispatcher := (u.dispatcher.tick instant).2 }) := by
    rw [← proceeds]
    rfl
  refine ⟨{ u with dispatcher := (u.dispatcher.tick instant).2 }, ⟨next, ?_, table sooner⟩, ?_⟩
  · rw [same, woken]
    push_cast
    rfl
  · simp [Host.wakeUp, early, ticked, same]

/-- At the deadline the loop ends. -/
theorem round_ends (whole : (n + 1) * (gap o.overload).toNat = 1000 * o.seconds)
    (deadline : last.nanos.toInt = o.seconds * 1000000000) : ∃ d', Beat o n d'.dispatcher ∧
      host.round (gap o.overload) (some last) d.dispatcher.clock d =
        (.error (.exit .timeLimit), d') := by
  obtain ⟨positive, woken⟩ := scene.wakes fits whole.le deadline
  rw [round_eq positive]
  generalize d.dispatcher.nextWake (gap o.overload) last = instant at woken
  have slept := (scene.sleeps fits woken).1
  have beat := scene.beat.sleep scene.clock woken
  rw [← slept] at beat
  have late : last ≤ instant := by
    rw [Instant.le_iff, Int64.le_iff_toInt_le, deadline, woken]
    zify at whole
    linarith
  exact ⟨_, beat, by simp [Host.wakeUp, late]⟩

end Scene

/-- From each tick on the loop makes those that are left, and ends at the deadline. -/
theorem Scene.loop {rounds : Nat} (scene : Scene o n d)
    (fits : o.seconds * 1000000000 < 2 ^ 63)
    (within : (n + 1) * (gap o.overload).toNat ≤ 1000 * o.seconds)
    (enough : 1000 * o.seconds ≤ (n + rounds) * (gap o.overload).toNat)
    (deadline : last.nanos.toInt = o.seconds * 1000000000) :
    ∃ m d', (m + 1) * (gap o.overload).toNat = 1000 * o.seconds ∧ Beat o m d'.dispatcher ∧
      host.loop (gap o.overload) (some last) rounds d.dispatcher.clock d =
        (.exit .timeLimit, d') := by
  induction rounds generalizing n d with
  | zero =>
    rcases gap_cases o.overload with length | length
    · rw [length] at within enough
      omega
    · rw [length] at within enough
      omega
  | succ rounds ih =>
    unfold Host.loop
    by_cases sooner : (n + 1) * (gap o.overload).toNat < 1000 * o.seconds
    · obtain ⟨d', scene', round⟩ := scene.round_ticks fits sooner deadline
      rw [round]
      apply ih scene'
      · -- the time of the run is a whole number of intervals
        rcases gap_cases o.overload with length | length
        · rw [length] at sooner ⊢
          omega
        · rw [length] at sooner ⊢
          omega
      · rw [Nat.add_right_comm, Nat.add_assoc]
        exact enough
    · obtain ⟨d', beat, round⟩ := scene.round_ends fits (by omega) deadline
      rw [round]
      exact ⟨n, d', by omega, beat, rfl⟩

/-! ## The end -/

/-- What is counted of a collector that keeps up: as many slots come due as intervals end before the time
is over, and each of them is a run if the mode admits the collector, and an event otherwise. -/
structure KeptUp (o : Options) (spec : Spec) (s : Dispatcher) : Prop where
  health : (s.scheduler.task? spec.name).map (·.health) = some .healthy
  runs : (s.scheduler.task? spec.name).map (·.stats.runs.toNat) =
    some (if o.mode.admits (spec.capabilities.has .telemetry) then
      1000 * o.seconds / spec.interval.toNat - 1 else 0)
  skipped : (s.sink.tally.count ⟨.skippedForMode, spec.name⟩).toNat =
    if o.mode.admits (spec.capabilities.has .telemetry) then 0
    else 1000 * o.seconds / spec.interval.toNat - 1
  /-- There is no other event. -/
  silent : ∀ event ≠ .skippedForMode, s.sink.tally.count ⟨event, spec.name⟩ = 0

/-- What is counted of the collector that sleeps. -/
structure WornOut (o : Options) (s : Dispatcher) : Prop where
  health : (s.scheduler.task? sleeper).map (·.health) = some .muted
  /-- It was started once. -/
  visits : (s.scheduler.task? sleeper).map (·.visits.length) = some 1
  slow : s.sink.tally.count ⟨.markedSlow, sleeper⟩ = 1
  skipped : s.sink.tally.count ⟨.skippedInProgress, sleeper⟩ = 2
  muted : (s.sink.tally.count ⟨.muted, sleeper⟩).toNat = 100 * o.seconds - 4

namespace Beat

variable (beat : Beat o n s) (whole : (n + 1) * (gap o.overload).toNat = 1000 * o.seconds)
  (fits : o.seconds * 1000000000 < 2 ^ 63)
include beat whole fits

/-- If there is always a worker to spare, every other collector keeps up. -/
theorem keptUp (spare : Overloads o → 2 ≤ o.workers) {spec : Spec} (member : spec ∈ collectors false) :
    KeptUp o spec s := by
  obtain ⟨e, same, healthy, paced⟩ := beat.tasks spare spec member
  have found : s.scheduler.entry? spec.name = some e := paced.startable.entry
  obtain ⟨divides, short⟩ := interval_collectors o.overload spec member
  have interval : e.task.interval = spec.interval := congrArg Spec.interval same
  rw [← interval] at divides short
  have positive : 0 < (gap o.overload).toNat := by cases o.overload <;> decide
  have slots := slotsAfter_last divides positive short whole
  have capabilities : e.task.capabilities = spec.capabilities := congrArg Spec.capabilities same
  have admits : e.task.admittedBy (s.view spec.name).mode =
      o.mode.admits (spec.capabilities.has .telemetry) := by
    rw [Task.admittedBy, Task.has, capabilities, show (s.view spec.name).mode = o.mode from beat.mode]
  have runs := paced.runs
  have events := paced.events
  rw [slots, admits, interval] at runs events
  have counted : ∀ event, s.sink.tally.count ⟨event, spec.name⟩ =
      UInt64.ofNat ((s.view spec.name).events.count event) := beat.lull.counted
  have small : 1000 * o.seconds / spec.interval.toNat - 1 < 2 ^ 64 := by
    have less := Nat.div_le_self (1000 * o.seconds) spec.interval.toNat
    omega
  constructor
  · rw [Scheduler.task?, found]
    exact congrArg some healthy
  · rw [Scheduler.task?, found]
    exact congrArg some runs
  · rw [counted, events, List.count_replicate_self, UInt64.toNat_ofNat_of_lt']
    split
    · exact Nat.zero_lt_of_lt small
    · exact small
  · intro event other
    rw [counted, events, List.count_replicate]
    simp [other.symm]

/-- The collector that sleeps is started once, demoted, and muted. -/
theorem wornOut (overloads : Overloads o) (lasting : 1 ≤ o.seconds) : WornOut o s := by
  obtain ⟨e, same, outrun⟩ := beat.outrun overloads
  have found : s.scheduler.entry? sleeper = some e := outrun.entry
  rw [overloads.toNat_gap] at whole
  obtain ⟨k, rfl⟩ : ∃ k, n = k + 3 := ⟨n - 3, by omega⟩
  have health := outrun.health
  have visits := outrun.visits
  have counted : ∀ event, s.sink.tally.count ⟨event, sleeper⟩ =
      UInt64.ofNat ((s.view sleeper).events.count event) := beat.lull.counted
  simp only [outrun.events, Event.worn, List.count_append, List.count_replicate] at counted
  constructor
  · rw [Scheduler.task?, found]
    exact congrArg some health
  · rw [Scheduler.task?, found]
    exact congrArg some (visits.trans (Nat.min_eq_right (by omega)))
  · rw [counted]
    rfl
  · rw [counted]
    rfl
  · have total : (if Event.muted == Event.muted then k else 0) +
        List.count Event.muted [.skippedInProgress, .skippedInProgress, .markedSlow] = k := rfl
    have small : k < 2 ^ 64 := by omega
    rw [counted, total, UInt64.toNat_ofNat_of_lt' small]
    omega

end Beat

/-- Seconds that fit into the range of the clock. -/
theorem toInt_ofSeconds {seconds : Nat} (fits : seconds * 1000000000 < 2 ^ 63) :
    (Millis.ofSeconds seconds).count.toInt = seconds * 1000 := by
  have thousand : (1000 : Int64).toInt = 1000 := by decide
  have small : (Int64.ofNat seconds).toInt = seconds := Int64.toInt_ofNat_of_lt (by omega)
  rw [Millis.ofSeconds, Int64.toInt_mul, small, thousand]
  exact Int.bmod_eq_of_le (by omega) (by omega)

/-- The demonstration runs until its time is over. -/
theorem Furnished.perform (furnished : Furnished o.workers (collectors o.overload) s)
    (enabled : s.scheduler.enabled = true) (mode : s.scheduler.mode = o.mode)
    (lasting : 1 ≤ o.seconds) (fits : o.seconds * 1000000000 < 2 ^ 63) :
    ∃ m d, (m + 1) * (gap o.overload).toNat = 1000 * o.seconds ∧ Beat o m d.dispatcher ∧
      perform o s = (.exit .timeLimit, d) := by
  have clock : s.start.clock = .epoch := s.clock_start.trans furnished.clock
  have least : s.start.scheduler.minInterval = gap o.overload := by
    have same : s.scheduler.minInterval = gap o.overload := by
      rw [furnished.minInterval]
      cases o.overload <;> decide
    simpa [Scheduler.start] using same
  have zero : Instant.epoch.nanos.toInt = 0 := by decide
  have first : Scene o 0 { dispatcher := s.start, nextTable := s.clock.after tablePeriod } := by
    constructor
    · exact furnished.beat enabled mode
    · simp [clock, zero]
    · rw [furnished.clock]
      simp
      decide
  have span := toInt_ofSeconds fits
  have deadline : (s.clock.after (.ofSeconds o.seconds)).nanos.toInt = o.seconds * 1000000000 := by
    rw [furnished.clock, Instant.toInt_after (by omega) (by omega), zero, span]
    ring
  have within : (0 + 1) * (gap o.overload).toNat ≤ 1000 * o.seconds := by
    rcases gap_cases o.overload with length | length <;> omega
  have enough : 1000 * o.seconds ≤ (0 + maxRounds o.seconds) * (gap o.overload).toNat := by
    rw [maxRounds]
    rcases gap_cases o.overload with length | length <;> rw [length] <;> omega
  obtain ⟨m, d, whole, beat, ran⟩ := first.loop fits within enough deadline
  have begins : host.run (some (.ofSeconds o.seconds)) (maxRounds o.seconds)
      { dispatcher := s, nextTable := s.clock.after tablePeriod } = (.exit .timeLimit, d) := by
    rw [← ran, ← least]
    rfl
  refine ⟨m, d.print, whole, beat, ?_⟩
  simp only [Demo.perform, begins]

end Cadence.Demo

namespace Cadence

/-- A command line that is read, with some time to run, ends with success when the time is over.  If there
is always a worker to spare, every collector keeps up; the one that sleeps is muted, if the mode admits
it. -/
theorem Demo.exits_with_final_counts {arguments : List String} {o : Options}
    (accepted : Options.ofArguments? arguments = some o) (lasting : 1 ≤ o.seconds)
    (fits : o.seconds * 1000000000 < 2 ^ 63) :
    (Demo.run arguments).exitCode = 0 ∧ ∃ s d, setUp o = .ok s ∧
      perform o s = (.exit .timeLimit, d) ∧
      ((o.overload = true → 2 ≤ o.workers) →
        ∀ spec ∈ collectors false, KeptUp o spec d.dispatcher) ∧
      (o.overload = true → o.mode.admits false = true → WornOut o d.dispatcher) := by
  have positive : 0 < o.workers := Options.workers_pos accepted (by decide)
  obtain ⟨s, furnished, start, enabled, mode⟩ := setUp_furnished o positive
  obtain ⟨m, d, whole, beat, ran⟩ := start.perform enabled mode lasting fits
  refine ⟨?_, s, d, furnished, ran, ?_, ?_⟩
  · simp only [Demo.run, accepted, runWith, furnished, ran, conclusion]
    rfl
  · intro spare spec member
    exact beat.keptUp whole fits (fun overloads => spare overloads.1) member
  · intro overload admits
    exact beat.wornOut whole fits ⟨overload, admits⟩ lasting

/-- One second of overload with two workers. -/
theorem Demo.exits_with_final_counts_sample :
    let arguments := ["demo", "--overload", "--workers", "2", "--seconds", "1"]
    let o : Options := { workers := 2, seconds := 1, overload := true }
    (Demo.run arguments).exitCode = 0 ∧ ∃ s d, setUp o = .ok s ∧
      perform o s = (.exit .timeLimit, d) ∧
      (∀ spec ∈ collectors false, KeptUp o spec d.dispatcher) ∧ WornOut o d.dispatcher := by
  have accepted : Options.ofArguments? ["demo", "--overload", "--workers", "2", "--seconds", "1"] =
      some { workers := 2, seconds := 1, overload := true } := by decide +kernel
  obtain ⟨exit, s, d, furnished, ran, kept, worn⟩ :=
    Demo.exits_with_final_counts accepted (by decide) (by decide)
  exact ⟨exit, s, d, furnished, ran, kept (by decide), worn rfl (by decide)⟩

end Cadence

import Mathlib.Algebra.Order.Floor.Div
import Cadence.Proofs.Diary
import Cadence.Proofs.Overruns
import Cadence.Proofs.SwiftTick

/-!
The loop keeps time, when no body waits or takes time.

Right after a wake-up the loop sleeps for the shortest interval of a task, or up to the deadline if that
comes sooner (`Dispatcher.round_diary`).  The state after `n` ticks is known: of each task the slots were
consumed that come due in `n` intervals (`Dispatcher.Beat`), and each tick leads to the next such state
(`Dispatcher.Beat.tick`).  So the loop makes all ticks that come before the deadline, and ends there
(`Dispatcher.Beat.loop`).
-/

namespace Cadence

namespace Millis

/-- How many milliseconds there are; none in a span that points back. -/
def toNat (d : Millis) : Nat := d.count.toInt.toNat

/-- How many intervals end before the span is over. -/
def intervals (d interval : Millis) : Nat := d.toNat ⌈/⌉ interval.toNat - 1

theorem lt_intervals_iff {d interval : Millis} (positive : 0 < interval.toNat) {n : Nat} :
    n < d.intervals interval ↔ (n + 1) * interval.toNat < d.toNat := by
  have ceiling : d.toNat ⌈/⌉ interval.toNat ≤ n + 1 ↔ d.toNat ≤ interval.toNat * (n + 1) :=
    ceilDiv_le_iff_le_mul positive
  rw [Nat.mul_comm] at ceiling
  unfold intervals
  omega

/-- So many intervals are not longer than the span. -/
theorem mul_le_of_le_intervals {d interval : Millis} (positive : 0 < interval.toNat) {n : Nat}
    (few : n ≤ d.intervals interval) : n * interval.toNat ≤ d.toNat := by
  cases n with
  | zero => simp
  | succ n => exact ((lt_intervals_iff positive).mp few).le

theorem toInt_count {d : Millis} (forward : 0 ≤ d.count.toInt) : d.count.toInt = d.toNat := by
  unfold toNat
  omega

end Millis

namespace Entry

/-- How many slots of a task come due in a number of ticks that are a span apart. -/
def slotsAfter (e : Entry) (gap : Millis) (n : Nat) : Nat :=
  n * gap.toNat / e.task.interval.toNat

theorem toNat_interval_pos (e : Entry) : 0 < e.task.interval.toNat := by
  have positive := e.task.one_le_interval
  unfold Millis.toNat
  omega

variable (e : Entry) {gap : Millis} {n k : Nat}

@[simp] theorem slotsAfter_zero : e.slotsAfter gap 0 = 0 := by simp [slotsAfter]

theorem slotsAfter_mono {n' : Nat} (less : n ≤ n') : e.slotsAfter gap n ≤ e.slotsAfter gap n' :=
  Nat.div_le_div_right (Nat.mul_le_mul_right _ less)

/-- The slots that come due by a tick are those whose time has come. -/
theorem slotsAfter_le_iff (forward : 0 ≤ gap.count.toInt) (start : Instant) :
    e.slotsAfter gap n ≤ k ↔ start.slotTime gap n < start.slotTime e.task.interval (k + 1) := by
  have length := Millis.toInt_count forward
  have interval := Millis.toInt_count (d := e.task.interval) (by have := e.task.one_le_interval; omega)
  have positive := e.toNat_interval_pos
  rw [← Nat.lt_succ_iff, slotsAfter, Nat.div_lt_iff_lt_mul positive, Instant.slotTime,
    Instant.slotTime, length, interval, Nat.succ_eq_add_one]
  zify
  constructor
  · intro less
    linarith
  · intro less
    linarith

/-- No two slots come due in one tick, if the ticks are not more than an interval apart. -/
theorem slotsAfter_succ_le (short : gap.toNat ≤ e.task.interval.toNat) :
    e.slotsAfter gap (n + 1) ≤ e.slotsAfter gap n + 1 := by
  have positive := e.toNat_interval_pos
  unfold slotsAfter
  rw [← Nat.add_div_right _ positive, Nat.succ_mul]
  exact Nat.div_le_div_right (Nat.add_le_add_left short _)

/-- In a tick the next slot comes due, unless its time is still to come. -/
theorem slotsAfter_succ (forward : 0 ≤ gap.count.toInt)
    (short : gap.toNat ≤ e.task.interval.toNat) (start : Instant) : e.slotsAfter gap (n + 1) =
      if start.slotTime gap (n + 1) < start.slotTime e.task.interval (e.slotsAfter gap n + 1) then
        e.slotsAfter gap n
      else e.slotsAfter gap n + 1 := by
  have due := e.slotsAfter_le_iff (n := n + 1) (k := e.slotsAfter gap n) forward start
  have more : e.slotsAfter gap n ≤ e.slotsAfter gap (n + 1) := e.slotsAfter_mono (Nat.le_succ n)
  have single := e.slotsAfter_succ_le (n := n) short
  split
  · rename_i ahead
    have none := due.mpr ahead
    omega
  · rename_i late
    have some := mt due.mp late
    omega

/-- A slot comes due in a tick if and only if the tick is the first that is not sooner. -/
theorem slot_iff (positive : 0 < gap.toNat) (short : gap.toNat ≤ e.task.interval.toNat) :
    e.slotsAfter gap n + 1 = k ∧ e.slotsAfter gap (n + 1) = k ↔
      n + 1 = (k * e.task.interval.toNat) ⌈/⌉ gap.toNat := by
  have interval := e.toNat_interval_pos
  have above : ∀ i, (k * e.task.interval.toNat) ⌈/⌉ gap.toNat ≤ i ↔ k ≤ e.slotsAfter gap i := by
    intro i
    rw [slotsAfter, Nat.le_div_iff_mul_le interval, ceilDiv_le_iff_le_mul positive, Nat.mul_comm i]
  have here := above (n + 1)
  have before := above n
  have single := e.slotsAfter_succ_le (n := n) short
  omega

end Entry

/-! ## A round of the loop -/

/-- Right after a wake-up the sleep that is due is the interval, or the time up to the deadline if that is
shorter. -/
theorem Host.toInt_sleepLength_of_whole {gap : Millis} (forward : 0 ≤ gap.count.toInt) {ns : Int64}
    {rest : Nat} (whole : ns.toInt = rest * 1000000) :
    (sleepLength gap 0 (some ns)).count.toInt = min gap.toNat rest := by
  have length := Millis.toInt_count forward
  have zero : (0 : Int64).toInt = 0 := by decide
  rw [toInt_sleepLength forward (by decide) ns, whole, zero]
  omega

namespace Dispatcher

variable {s : Dispatcher} {gap : Millis} {last : Instant}

/-- When the loop wakes up next, right after a wake-up, in a run up to a deadline. -/
def nextWake (s : Dispatcher) (gap : Millis) (last : Instant) : Instant :=
  let length := Host.sleepLength gap 0 (some (last.since s.clock))
  if 0 < length.count then s.clock.after length else s.clock

theorem toInt_nextWake {rest : Nat} (forward : 0 ≤ gap.count.toInt)
    (remaining : last.nanos.toInt = s.clock.nanos.toInt + rest * 1000000)
    (fits : (rest : Int) * 1000000 < 2 ^ 63) : (s.nextWake gap last).nanos.toInt =
      s.clock.nanos.toInt + min gap.toNat rest * 1000000 := by
  have whole : (last.since s.clock).toInt = rest * 1000000 := by
    rw [Instant.toInt_since (by omega) (by omega), remaining, add_sub_cancel_left]
  have length := Host.toInt_sleepLength_of_whole forward whole
  have small := last.nanos.toInt_lt
  have zero : (0 : Int64).toInt = 0 := by decide
  simp only [nextWake]
  split
  · rename_i positive
    rw [Int64.lt_iff_toInt_lt, zero, length] at positive
    rw [Instant.toInt_after (by omega) (by omega), length]
  · rename_i none
    rw [Int64.lt_iff_toInt_lt, zero, length] at none
    omega

/-- A round of the loop begins with a sleep, in which nothing happens if the workers have nothing to do.
-/
theorem round_diary (vacant : s.Vacant) (diary : History (Wake Dispatcher)) :
    host.diary.round gap (some last) s.clock (diary, s) =
      host.diary.wakeUp (some last) (s.nextWake gap last)
        (diary, { s with clock := s.nextWake gap last }) := by
  have elapsed : s.clock.since s.clock = 0 := Int64.sub_self s.clock.nanos
  have slept : ∀ length, host.diary.sleep length (diary, s) =
      .slept (diary, { s with clock := s.clock.after length }) := by
    intro length
    rw [← vacant.sleepUntil]
    rfl
  have next : host.diary.nextSleep gap (some last) s.clock (diary, s) =
      (Host.sleepLength gap 0 (some (last.since s.clock)), (diary, s)) := by
    rw [← elapsed]
    rfl
  unfold Host.round Host.pause Host.sleepIfPositive nextWake
  rw [next]
  by_cases positive : 0 < (Host.sleepLength gap 0 (some (last.since s.clock))).count
  · simp only [if_pos positive, slept]
    rfl
  · simp only [if_neg positive]
    rfl

/-- At the deadline the loop ends. -/
theorem wakeUp_diary_of_le {now : Instant} (late : last ≤ now)
    (diary : History (Wake Dispatcher)) : host.diary.wakeUp (some last) now (diary, s) =
      (.error (.exit .timeLimit), (diary, s)) := by
  simp [Host.wakeUp, late]

/-- Before the deadline a tick that goes on is added to the diary. -/
theorem wakeUp_diary_of_proceed {now : Instant} (sooner : ¬ last ≤ now)
    (proceeds : (s.tick now).1 = .proceed) (diary : History (Wake Dispatcher)) :
    host.diary.wakeUp (some last) now (diary, s) =
      (.ok now, (⟨now, s, (s.tick now).2⟩ :: diary, (s.tick now).2)) := by
  have ticked : host.diary.tick now (diary, s) =
      (.proceed, (⟨now, s, (s.tick now).2⟩ :: diary, (s.tick now).2)) := by
    rw [← proceeds]
    rfl
  simp [Host.wakeUp, sooner, ticked]

end Dispatcher

/-! ## Beats -/

theorem View.Paced.setClock {v : View} {start : Instant} {slots : Nat} {e : Entry}
    (paced : v.Paced start slots e) (clock : Instant) :
    View.Paced { v with clock } start slots e := by
  obtain ⟨startable, due, runs, events⟩ := paced
  constructor
  · exact ⟨startable.entry, startable.waits, startable.run, startable.free, startable.audible,
      startable.swift⟩
  · exact due
  · exact runs
  · exact events

namespace Dispatcher

/-- The state of a run after a number of ticks, whose tasks were registered for one instant. -/
structure Beat (start : Instant) (workers : Nat) (first : Dispatcher) (n : Nat) (s : Dispatcher) :
    Prop where
  calm : Moment.Calm workers s
  enabled : s.scheduler.enabled = true
  mode : s.scheduler.mode = first.scheduler.mode
  /-- Of each task the slots were consumed that have come due. -/
  tasks : ∀ e ∈ first.scheduler.entries, ∃ e', e'.task.spec = e.task.spec ∧
    (s.view e.task.name).Paced start (e.slotsAfter first.scheduler.minInterval n) e'
  /-- There are no other tasks, and no events of any. -/
  others : ∀ name ∉ first.scheduler.names,
    (s.view name).entry = none ∧ (s.view name).events = []

namespace Beat

variable {start : Instant} {workers : Nat} {first s : Dispatcher} {n : Nat}

theorem setClock (beat : Beat start workers first n s) (clock : Instant) :
    Beat start workers first n { s with clock } := by
  constructor
  · exact beat.calm.setClock clock
  · exact beat.enabled
  · exact beat.mode
  · intro e member
    obtain ⟨e', same, paced⟩ := beat.tasks e member
    exact ⟨e', same, paced.setClock clock⟩
  · exact beat.others

/-- After a tick no task is in progress. -/
theorem free (beat : Beat start workers first n s) :
    ∀ e ∈ s.scheduler.entries, e.task.inProgress = false := by
  intro e member
  have found := Scheduler.entry?_of_mem beat.calm.sound.distinct member
  by_cases registered : e.task.name ∈ first.scheduler.names
  · obtain ⟨e₀, before, named⟩ := List.mem_map.mp registered
    obtain ⟨e', _, paced⟩ := beat.tasks e₀ before
    have seen : s.scheduler.entry? e₀.task.name = some e' := paced.startable.entry
    rw [named, found] at seen
    cases seen
    exact paced.startable.free
  · have missing : s.scheduler.entry? e.task.name = none := (beat.others _ registered).1
    rw [found] at missing
    cases missing

/-- Each tick, at its instant, leads to the next beat. -/
theorem tick (beat : Beat start workers first n s) {now : Instant}
    (forward : 0 ≤ first.scheduler.minInterval.count.toInt)
    (short : ∀ e ∈ first.scheduler.entries,
      first.scheduler.minInterval.toNat ≤ e.task.interval.toNat)
    (comes : now.nanos.toInt = start.slotTime first.scheduler.minInterval (n + 1))
    (fits : ∀ e ∈ first.scheduler.entries, start.slotTime e.task.interval
      (e.slotsAfter first.scheduler.minInterval (n + 1) + 1) < 2 ^ 63) :
    (s.tick now).1 = .proceed ∧ Beat start workers first (n + 1) (s.tick now).2 ∧
      (s.tick now).2.clock = s.clock := by
  obtain ⟨proceeds, calm, seen⟩ := beat.calm.tick beat.free now
  simp only [beat.enabled, if_true] at seen
  have controls : (s.tick now).2.clock = s.clock ∧
      (s.tick now).2.scheduler.mode = s.scheduler.mode ∧
      (s.tick now).2.scheduler.enabled = s.scheduler.enabled := by
    have kept := (s.view "").controls_relax_evaluate now ""
    rw [← seen] at kept
    exact kept
  refine ⟨proceeds, ?_, controls.1⟩
  constructor
  · exact calm
  · exact controls.2.2.trans beat.enabled
  · exact controls.2.1.trans beat.mode
  · intro e member
    obtain ⟨e', same, paced⟩ := beat.tasks e member
    have named : e'.task.name = e.task.name := congrArg Spec.name same
    have interval : e'.task.interval = e.task.interval := congrArg Spec.interval same
    have next := e.slotsAfter_succ (n := n) forward (short e member) start
    rw [← comes, ← interval] at next
    obtain ⟨last, paced', same', _⟩ := paced.tick next (interval ▸ fits e member)
    rw [named, ← seen] at paced'
    exact ⟨last, same'.trans same, paced'⟩
  · intro name unregistered
    obtain ⟨missing, silent⟩ := beat.others name unregistered
    have vacant := beat.calm.vacant
    have waits : (s.view name).waits = false := by simp [view, vacant.waiting]
    have run : (s.view name).run = none := by simp [view, vacant.held]
    rw [seen, View.relax_evaluate_of_missing missing waits run]
    exact ⟨missing, silent⟩

end Beat

/-- How many ticks a run for a time makes. -/
def ticksIn (s : Dispatcher) (duration : Millis) : Nat := duration.intervals s.scheduler.minInterval

/-- The instants and the spans of a run for a time are within the range of the clock: the deadline, the
time up to it, and the due time of each task in the end. -/
structure Fits (start : Instant) (duration : Millis) (first : Dispatcher) : Prop where
  deadline : start.nanos.toInt + duration.count.toInt * 1000000 < 2 ^ 63
  span : duration.count.toInt * 1000000 < 2 ^ 63
  dues : ∀ e ∈ first.scheduler.entries, start.slotTime e.task.interval
    (e.slotsAfter first.scheduler.minInterval (first.ticksIn duration) + 1) < 2 ^ 63

/-- Tasks were registered for an instant, and nothing happened to them since. -/
structure Primed (start : Instant) (workers : Nat) (s : Dispatcher) : Prop where
  calm : Moment.Calm workers s
  tasks : ∀ e ∈ s.scheduler.entries,
    e.due = start.after e.task.interval ∧ e.task.Fresh ∧ e.task.Healthy
  silent : s.sink.events = []
  /-- No interval is shorter than the shortest one. -/
  least : ∀ e ∈ s.scheduler.entries,
    s.scheduler.minInterval.count.toInt ≤ e.task.interval.count.toInt
  /-- The shortest one is that of a task, unless no span is longer. -/
  attained : s.scheduler.minInterval = .longest ∨
    ∃ e ∈ s.scheduler.entries, e.task.interval = s.scheduler.minInterval

namespace Primed

variable {start : Instant} {workers : Nat} {s : Dispatcher} {duration : Millis}

/-- The shortest interval is that of a task. -/
theorem shortest (primed : Primed start workers s) (some : s.scheduler.entries ≠ []) :
    ∃ e ∈ s.scheduler.entries, e.task.interval.count.toInt = s.scheduler.minInterval.count.toInt := by
  rcases primed.attained with longest | ⟨e, member, same⟩
  · obtain ⟨e, member⟩ := List.exists_mem_of_ne_nil _ some
    have least := primed.least e member
    have most := e.task.interval.count.toInt_lt
    have value : Millis.longest.count.toInt = 2 ^ 63 - 1 := by decide
    rw [longest] at least ⊢
    exact ⟨e, member, by omega⟩
  · exact ⟨e, member, by rw [same]⟩

theorem positive (primed : Primed start workers s) (some : s.scheduler.entries ≠ []) :
    0 < s.scheduler.minInterval.count.toInt := by
  obtain ⟨e, _, same⟩ := primed.shortest some
  have positive := e.task.one_le_interval
  omega

theorem short (primed : Primed start workers s) : ∀ e ∈ s.scheduler.entries,
    s.scheduler.minInterval.toNat ≤ e.task.interval.toNat := by
  intro e member
  have least := primed.least e member
  unfold Millis.toNat
  omega

/-- No slot was consumed yet. -/
theorem paced (primed : Primed start workers s) (fits : Fits start duration s) {e : Entry}
    (member : e ∈ s.scheduler.entries) : (s.view e.task.name).Paced start 0 e := by
  obtain ⟨due, ⟨free, unrun⟩, healthy⟩ := primed.tasks e member
  have vacant := primed.calm.vacant
  have first := start.slotTime_succ e.task.interval 0
  have now : start.slotTime e.task.interval 0 = start.nanos.toInt := by simp [Instant.slotTime]
  have sooner := lt_of_le_of_lt
    (start.slotTime_mono e.task (Nat.succ_le_succ (Nat.zero_le _))) (fits.dues e member)
  rw [first, now] at sooner
  have interval := e.task.one_le_interval
  constructor
  · constructor
    · exact Scheduler.entry?_of_mem primed.calm.sound.distinct member
    · simp [view, vacant.waiting]
    · simp [view, vacant.held]
    · exact free
    · rw [healthy]
      decide
    · exact (primed.calm.swift e member).2
  · rw [due, first, now]
    exact Instant.toInt_after (by omega) sooner
  · simp [unrun]
  · simp [view, primed.silent]

/-- The first beat. -/
theorem beat (primed : Primed start workers s) (fits : Fits start duration s)
    (enabled : s.scheduler.enabled = true) : Beat start workers s 0 s.start := by
  constructor
  · exact primed.calm.start
  · simpa [Scheduler.start] using enabled
  · simp [Scheduler.start]
  · intro e member
    refine ⟨e, rfl, ?_⟩
    rw [view_start, Entry.slotsAfter_zero]
    exact primed.paced fits member
  · intro name unregistered
    rw [view_start]
    exact ⟨Scheduler.entry?_eq_none_iff.mpr unregistered, by simp [view, primed.silent]⟩

end Primed

/-! ## The loop -/

/-- A tick of a run, after so many others. -/
structure Ticked (start : Instant) (workers : Nat) (first : Dispatcher) (n : Nat)
    (w : Wake Dispatcher) : Prop where
  comes : w.now.nanos.toInt = start.slotTime first.scheduler.minInterval (n + 1)
  before : Beat start workers first n w.before
  after : Beat start workers first (n + 1) w.after

/-- The diary of a run after a number of ticks. -/
structure Kept (start : Instant) (workers : Nat) (first : Dispatcher) (n : Nat)
    (diary : History (Wake Dispatcher)) : Prop where
  length : diary.all.length = n
  wakes : ∀ i w, diary.all[i]? = some w → Ticked start workers first i w

section

variable {start : Instant} {workers : Nat} {first s : Dispatcher} {n : Nat}
  {diary : History (Wake Dispatcher)} {duration : Millis}

/-- A tick is added to the diary. -/
theorem Kept.step (kept : Kept start workers first n diary) {w : Wake Dispatcher}
    (ticked : Ticked start workers first n w) : Kept start workers first (n + 1) (w :: diary) := by
  have length := kept.length
  have all : History.all (w :: diary) = diary.all ++ [w] := List.reverse_cons
  constructor
  · rw [all, List.length_append, length, List.length_singleton]
  · intro i v found
    rw [all] at found
    by_cases earlier : i < n
    · rw [List.getElem?_append_left (by omega)] at found
      exact kept.wakes i v found
    · rw [List.getElem?_append_right (by omega), length] at found
      obtain ⟨within, same⟩ := List.getElem?_eq_some_iff.mp found
      simp only [List.length_singleton] at within
      obtain rfl : i = n := by omega
      obtain rfl : w = v := by simpa using same
      exact ticked

section

variable (primed : Primed start workers first) (some : first.scheduler.entries ≠ [])
  (fits : Fits start duration first) (forward : 0 ≤ duration.count.toInt)
include primed some fits forward

/-- Between two beats as much time is left as there are milliseconds up to the deadline. -/
theorem toInt_deadline (sooner : n ≤ first.ticksIn duration) :
    (start.after duration).nanos.toInt = start.slotTime first.scheduler.minInterval n +
      (duration.toNat - n * first.scheduler.minInterval.toNat : Nat) * 1000000 := by
  have gap := primed.positive some
  have length := Millis.toInt_count gap.le
  have total := Millis.toInt_count forward
  have left := Millis.mul_le_of_le_intervals (by omega) sooner
  rw [Instant.toInt_after forward fits.deadline, Instant.slotTime, length, total]
  push_cast [Nat.cast_sub left]
  ring

/-- After a beat the loop wakes up an interval later, or at the deadline if that is sooner. -/
theorem toInt_wake (clock : s.clock.nanos.toInt = start.slotTime first.scheduler.minInterval n)
    (sooner : n ≤ first.ticksIn duration) :
    (s.nextWake first.scheduler.minInterval (start.after duration)).nanos.toInt =
      start.slotTime first.scheduler.minInterval n +
        min first.scheduler.minInterval.toNat
          (duration.toNat - n * first.scheduler.minInterval.toNat) * 1000000 := by
  have gap := primed.positive some
  have total := Millis.toInt_count forward
  have span := fits.span
  rw [← clock]
  apply toInt_nextWake gap.le
  · rw [clock]
    exact toInt_deadline primed some fits forward sooner
  · omega

variable (diary) in
/-- As long as an interval ends before the deadline, a round of the loop makes a tick. -/
theorem Beat.round_ticks (beat : Beat start workers first n s)
    (clock : s.clock.nanos.toInt = start.slotTime first.scheduler.minInterval n)
    (ticks : n < first.ticksIn duration) : ∃ w, Ticked start workers first n w ∧
      w.after.clock = w.now ∧
      host.diary.round first.scheduler.minInterval (.some (start.after duration)) s.clock (diary, s) =
        (.ok w.now, (w :: diary, w.after)) := by
  have gap := primed.positive some
  have length := Millis.toInt_count gap.le
  have before := (Millis.lt_intervals_iff (by omega)).mp ticks
  have woken := toInt_wake primed some fits forward clock ticks.le
  have deadline := toInt_deadline primed some fits forward ticks.le
  rw [Nat.succ_mul] at before
  rw [round_diary beat.calm.vacant]
  generalize s.nextWake first.scheduler.minInterval (start.after duration) = now at woken
  have comes : now.nanos.toInt = start.slotTime first.scheduler.minInterval (n + 1) := by
    rw [woken, Instant.slotTime_succ, length, Nat.min_eq_left (by omega)]
  have sooner : ¬ start.after duration ≤ now := by
    rw [Instant.le_iff, Int64.le_iff_toInt_le, woken, deadline]
    omega
  have dues : ∀ e ∈ first.scheduler.entries, start.slotTime e.task.interval
      (e.slotsAfter first.scheduler.minInterval (n + 1) + 1) < 2 ^ 63 := by
    intro e member
    have fewer : e.slotsAfter first.scheduler.minInterval (n + 1) ≤
        e.slotsAfter first.scheduler.minInterval (first.ticksIn duration) :=
      e.slotsAfter_mono ticks
    exact lt_of_le_of_lt (start.slotTime_mono e.task (Nat.succ_le_succ fewer))
      (fits.dues e member)
  have asleep := beat.setClock now
  obtain ⟨proceeds, after, same⟩ := asleep.tick gap.le primed.short comes dues
  exact ⟨⟨now, { s with clock := now }, _⟩, ⟨comes, asleep, after⟩, same,
    wakeUp_diary_of_proceed sooner proceeds diary⟩

/-- When no further interval ends before the deadline, a round of the loop ends there. -/
theorem Beat.round_ends (beat : Beat start workers first n s)
    (clock : s.clock.nanos.toInt = start.slotTime first.scheduler.minInterval n)
    (last : n = first.ticksIn duration) :
    host.diary.round first.scheduler.minInterval (.some (start.after duration)) s.clock (diary, s) =
      (.error (.exit .timeLimit), (diary, { s with clock := start.after duration })) := by
  have gap := primed.positive some
  have length := Millis.toInt_count gap.le
  have late := mt (Millis.lt_intervals_iff (by omega)).mpr last.ge.not_gt
  have woken := toInt_wake primed some fits forward clock last.le
  have deadline := toInt_deadline primed some fits forward last.le
  rw [Nat.succ_mul] at late
  have same : s.nextWake first.scheduler.minInterval (start.after duration) =
      start.after duration := by
    rw [Nat.min_eq_right (by omega), ← deadline] at woken
    exact Instant.toInt_inj.mp woken
  rw [round_diary beat.calm.vacant, same]
  exact wakeUp_diary_of_le (Int64.le_refl _) diary

/-- From each beat on, the loop makes the ticks that are left, and ends at the deadline. -/
theorem Beat.loop {rounds : Nat} (beat : Beat start workers first n s)
    (kept : Kept start workers first n diary)
    (clock : s.clock.nanos.toInt = start.slotTime first.scheduler.minInterval n)
    (sooner : n ≤ first.ticksIn duration) (enough : first.ticksIn duration - n < rounds) :
    ∃ wakes last, host.diary.loop first.scheduler.minInterval (.some (start.after duration)) rounds
        s.clock (diary, s) = (.exit .timeLimit, wakes, last) ∧
      Kept start workers first (first.ticksIn duration) wakes ∧
      Beat start workers first (first.ticksIn duration) last ∧
      last.clock = start.after duration := by
  induction rounds generalizing n s diary with
  | zero => omega
  | succ rounds ih =>
    unfold Host.loop
    by_cases ticks : n < first.ticksIn duration
    · obtain ⟨w, ticked, same, round⟩ := beat.round_ticks diary primed some fits forward clock ticks
      rw [round, ← same]
      exact ih ticked.after (kept.step ticked) (same ▸ ticked.comes) ticks (by omega)
    · have last : n = first.ticksIn duration := by omega
      rw [beat.round_ends primed some fits forward clock last]
      exact ⟨diary, _, rfl, last ▸ kept, last ▸ beat.setClock _, rfl⟩

end

/-- A run for a time, from the instant on for which the tasks were registered, makes all its ticks and
ends at the deadline. -/
theorem Primed.run (primed : Primed start workers first) (some : first.scheduler.entries ≠ [])
    (fits : Fits start duration first) (forward : 0 ≤ duration.count.toInt)
    (enabled : first.scheduler.enabled = true) (now : first.clock = start) {rounds : Nat}
    (enough : first.ticksIn duration < rounds) :
    ∃ wakes last, host.diary.run (.some duration) rounds ([], first) =
        (.exit .timeLimit, wakes, last) ∧
      Kept start workers first (first.ticksIn duration) wakes ∧
      Beat start workers first (first.ticksIn duration) last ∧
      last.clock = start.after duration := by
  have clock : first.start.clock = start := by
    rw [← now]
    exact first.clock_start
  have gap : first.start.scheduler.minInterval = first.scheduler.minInterval := by
    simp [Scheduler.start]
  have begins : host.diary.run (.some duration) rounds ([], first) =
      host.diary.loop first.scheduler.minInterval (.some (start.after duration)) rounds
        first.start.clock ([], first.start) := by
    rw [← gap, ← now]
    rfl
  have blank : Kept start workers first 0 [] := ⟨rfl, by simp [History.all]⟩
  rw [begins]
  apply (primed.beat fits enabled).loop primed some fits forward blank
  · rw [clock]
    simp [Instant.slotTime]
  · exact Nat.zero_le _
  · exact enough

end

end Dispatcher

end Cadence

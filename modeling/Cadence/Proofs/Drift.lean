import Cadence.Proofs.Deadline

/-!
The loop drifts by what it cuts off.

The sleep is computed from the time that has passed since the last wake-up, and that time is cut off to
whole milliseconds.  So a wake-up comes an interval after the one before, and later by the part of the
work in between that is less than a millisecond (`Adrift.wake`).  These parts add up (`History.lag`): a
task with the shortest interval is up to date as long as their sum is less than the interval, and a task
with a longer interval always is (`Dispatcher.keeps_up_iff`).  Work of whole milliseconds leaves no task
behind, and shorter work does (`Dispatcher.falls_behind`).
-/

namespace Cadence

/-! ## Lag -/

section

variable {σ : Type}

/-- The time that the work of a tick takes, up to the next reading of the clock. -/
def Wake.work (get : σ → Dispatcher) (w : Wake σ) : Int :=
  (get w.after).clock.nanos.toInt - w.now.nanos.toInt

/-- The parts of the work below a millisecond. -/
def History.lag (get : σ → Dispatcher) (wakes : History (Wake σ)) : Int :=
  (wakes.map fun w => w.work get % 1000000).sum

theorem History.lag_cons (get : σ → Dispatcher) (w : Wake σ) (wakes : History (Wake σ)) :
    History.lag get (w :: wakes) = w.work get % 1000000 + wakes.lag get := by
  simp [History.lag]

theorem History.lag_eq_zero {get : σ → Dispatcher} {wakes : History (Wake σ)}
    (whole : ∀ w ∈ wakes, w.work get % 1000000 = 0) : wakes.lag get = 0 := by
  induction wakes with
  | nil => simp [History.lag]
  | cons w wakes ih =>
    rw [lag_cons, whole w List.mem_cons_self, ih fun v member => whole v (List.mem_cons_of_mem _ member)]
    rfl

theorem History.lag_nonneg (get : σ → Dispatcher) (wakes : History (Wake σ)) : 0 ≤ wakes.lag get := by
  induction wakes with
  | nil => simp [History.lag]
  | cons w wakes ih =>
    rw [lag_cons]
    omega

end

/-! ## Rows -/

/-- The row of a task after a number of ticks, the last of which came at `woke`: the slots of the shortest
interval were all consumed in turn, and a longer interval is not over. -/
structure Row.OnSchedule (start woke : Instant) (gap : Millis) (last : Instant) (ticks : Nat) (r : Row) :
    Prop where
  least : gap.count.toInt ≤ r.interval.count.toInt
  tight : r.interval.count.toInt = gap.count.toInt → r.due.nanos.toInt = start.slotTime gap (ticks + 1)
  loose : gap.count.toInt < r.interval.count.toInt → woke.nanos.toInt < r.due.nanos.toInt
  fits : last.nanos.toInt + r.interval.count.toInt * 1000000 < 2 ^ 63

namespace Row.OnSchedule

variable {start woke now last : Instant} {gap : Millis} {ticks : Nat} {r : Row} {lag : Int}

/-- A tick that is late by less than a millisecond since the last one serves the row. -/
theorem serve (on : r.OnSchedule start woke gap last ticks) (positive : 0 < gap.count.toInt)
    (behind : 0 ≤ lag) (comes : now.nanos.toInt = start.slotTime gap (ticks + 1) + lag)
    (pace : now.nanos.toInt < woke.nanos.toInt + (gap.count.toInt + 1) * 1000000)
    (sooner : now.nanos.toInt < last.nanos.toInt) :
    (r.serve now).OnSchedule start now gap last (ticks + 1) := by
  have least := on.least
  have fits := on.fits
  have next : ¬ now < r.due → (r.serve now).due.nanos.toInt =
      r.due.nanos.toInt + r.interval.count.toInt * 1000000 := by
    intro due
    have reached := Int64.not_lt.mp due
    rw [Int64.le_iff_toInt_le] at reached
    rw [Row.serve, if_neg due]
    exact Instant.toInt_after (by omega) (by omega)
  constructor
  · rw [Row.interval_serve]
    exact least
  · intro same
    rw [Row.interval_serve] at same
    have due := on.tight same
    have reached : ¬ now < r.due := by
      rw [Instant.lt_iff, Int64.lt_iff_toInt_lt, due, comes]
      omega
    rw [next reached, due, same, Instant.slotTime_succ start gap (ticks + 1)]
  · intro longer
    rw [Row.interval_serve] at longer
    have ahead := on.loose longer
    by_cases due : now < r.due
    · rw [Row.serve, if_pos due]
      exact Int64.lt_iff_toInt_lt.mp due
    · rw [next due]
      omega
  · rw [Row.interval_serve]
    exact fits

/-- Whether a task is up to date after a tick. -/
theorem ahead_iff (on : r.OnSchedule start now gap last (ticks + 1))
    (comes : now.nanos.toInt = start.slotTime gap (ticks + 1) + lag) :
    now < r.due ↔ gap.count.toInt < r.interval.count.toInt ∨ lag < gap.count.toInt * 1000000 := by
  have least := on.least
  rw [Instant.lt_iff, Int64.lt_iff_toInt_lt]
  rcases Int.lt_or_eq_of_le least with longer | same
  · simp [longer, on.loose longer]
  · rw [on.tight same.symm, comes, Instant.slotTime_succ start gap (ticks + 1)]
    omega

end Row.OnSchedule

/-! ## Rounds -/

namespace Dispatcher

variable {σ : Type} {get : σ → Dispatcher} {set : σ → Dispatcher → σ} {sleep : Millis → σ → Nap σ}

/-- A sleep takes its time and does not fail, and nobody touches the timetable in it. -/
structure Sleeps (get : σ → Dispatcher) (sleep : Millis → σ → Nap σ) : Prop where
  unfailing : ∀ length s what t, sleep length s ≠ .failed what t
  clock : ∀ length s t, sleep length s = .slept t → (get t).clock = (get s).clock.after length
  plan : ∀ length s t, sleep length s = .slept t → (get t).scheduler.plan = (get s).scheduler.plan

theorem sleeps_host :
    Sleeps id fun length (s : Dispatcher) => .slept (s.sleepUntil (s.clock.after length)) := by
  constructor
  · intro length s what t failed
    cases failed
  · intro length s t slept
    cases slept
    rfl
  · intro length s t slept
    cases slept
    exact s.plan_sleepUntil _

/-- The sleep that is due. -/
def napLength (get : σ → Dispatcher) (gap : Millis) (last woke : Instant) (s : σ) : Millis :=
  Host.sleepLength gap ((get s).clock.since woke) (some (last.since (get s).clock))

/-- A round leads to a wake-up: at once if there is nothing to sleep, or after a sleep. -/
inductive Wakes (get : σ → Dispatcher) (sleep : Millis → σ → Nap σ) (length : Millis) (s : σ) : σ → Prop
  | busy (spent : ¬ 0 < length.count) : Wakes get sleep length s s
  | slept {t : σ} (positive : 0 < length.count) (slept : sleep length s = .slept t) :
    Wakes get sleep length s t

/-- The ways through a round, in a run up to a deadline with a diary. -/
inductive Rounds (get : σ → Dispatcher) (set : σ → Dispatcher → σ) (sleep : Millis → σ → Nap σ)
    (gap : Millis) (last woke : Instant) (d : History (Wake σ)) (s : σ) :
    Except Ended Instant → History (Wake σ) → σ → Prop
  /-- The loop ends without a tick. -/
  | ended {ended : Ended} {t : σ} : Rounds get set sleep gap last woke d s (.error ended) d t
  /-- The loop goes on from the wake-up. -/
  | ticked {t : σ} {u : Dispatcher} (wakes : Wakes get sleep (napLength get gap last woke s) s t)
    (sooner : ¬ last ≤ (get t).clock) (ticked : (get t).tick (get t).clock = (.proceed, u)) :
    Rounds get set sleep gap last woke d s (.ok (get t).clock) (⟨(get t).clock, t, set t u⟩ :: d) (set t u)
  /-- The tick ends the loop. -/
  | stopped {ended : Ended} {t v : σ} {verdict : Verdict} {u : Dispatcher}
    (wakes : Wakes get sleep (napLength get gap last woke s) s t) (sooner : ¬ last ≤ (get t).clock)
    (ticked : (get t).tick (get t).clock = (verdict, u)) (stops : verdict ≠ .proceed) :
    Rounds get set sleep gap last woke d s (.error ended) (⟨(get t).clock, t, set t u⟩ :: d) v

variable (set) in
/-- Every round is one of those listed, if no sleep fails. -/
theorem rounds (sleeps : Sleeps get sleep) (gap : Millis) (last woke : Instant) (d : History (Wake σ))
    (s : σ) : Rounds get set sleep gap last woke d s
      ((hostWithin get set sleep).diary.round gap (some last) woke (d, s)).1
      ((hostWithin get set sleep).diary.round gap (some last) woke (d, s)).2.1
      ((hostWithin get set sleep).diary.round gap (some last) woke (d, s)).2.2 := by
  have next : (hostWithin get set sleep).diary.nextSleep gap (some last) woke (d, s) =
      (napLength get gap last woke s, (d, s)) := rfl
  have woken : ∀ t, Wakes get sleep (napLength get gap last woke s) s t →
      Rounds get set sleep gap last woke d s
        ((hostWithin get set sleep).diary.wakeUp (some last) (get t).clock (d, t)).1
        ((hostWithin get set sleep).diary.wakeUp (some last) (get t).clock (d, t)).2.1
        ((hostWithin get set sleep).diary.wakeUp (some last) (get t).clock (d, t)).2.2 := by
    intro t wakes
    unfold Host.wakeUp
    by_cases late : last ≤ (get t).clock
    · simp only [Option.any_some, decide_eq_true late, if_true]
      exact .ended
    · simp only [Option.any_some, decide_eq_false late, Bool.false_eq_true, if_false]
      cases ticked : (get t).tick (get t).clock with
      | mk verdict u =>
        have noted : (hostWithin get set sleep).diary.tick (get t).clock (d, t) =
            (verdict, ⟨(get t).clock, t, set t u⟩ :: d, set t u) := by
          simp [Host.diary, hostWithin, ticked]
        rw [noted]
        cases verdict with
        | proceed => exact .ticked wakes late ticked
        | stop => exact .stopped wakes late ticked (by simp)
        | fail fault => exact .stopped wakes late ticked (by simp)
  unfold Host.round Host.pause
  rw [next]
  simp only [Host.sleepIfPositive]
  by_cases positive : 0 < (napLength get gap last woke s).count
  · simp only [if_pos positive]
    have nap : (hostWithin get set sleep).diary.sleep (napLength get gap last woke s) (d, s) =
        (sleep (napLength get gap last woke s) s).map (Prod.mk d) := rfl
    cases slept : sleep (napLength get gap last woke s) s with
    | slept t =>
      rw [nap, slept]
      exact woken t (.slept positive slept)
    | failed what t => exact absurd slept (sleeps.unfailing _ _ _ _)
    | halted t =>
      rw [nap, slept]
      exact .ended
  · simp only [if_neg positive]
    exact woken s (.busy positive)

/-- Where a run has drifted to before its next round, since the wake-up of its last tick. -/
structure Adrift (get : σ → Dispatcher) (start : Instant) (gap : Millis) (last woke : Instant)
    (d : History (Wake σ)) (s : σ) : Prop where
  distinct : (get s).scheduler.names.Nodup
  rows : ∀ r ∈ (get s).scheduler.plan.rows, r.OnSchedule start woke gap last d.length
  begun : start.nanos.toInt ≤ woke.nanos.toInt
  /-- The work since then took less than an interval. -/
  forward : woke.nanos.toInt ≤ (get s).clock.nanos.toInt
  brief : (get s).clock.nanos.toInt < woke.nanos.toInt + gap.count.toInt * 1000000
  /-- The part of it that is less than a millisecond is going to be cut off. -/
  lag : woke.nanos.toInt + ((get s).clock.nanos.toInt - woke.nanos.toInt) % 1000000 =
    start.slotTime gap d.length + d.lag get

/-- A wake-up of a run that has drifted, after others. -/
structure Drifting (get : σ → Dispatcher) (start : Instant) (gap : Millis) (earlier : History (Wake σ))
    (w : Wake σ) : Prop where
  /-- It is late by the parts below a millisecond of all the work before. -/
  now : w.now.nanos.toInt = start.slotTime gap (earlier.length + 1) + earlier.lag get
  /-- After a tick that goes on, a task is up to date if and only if its interval is not the shortest, or
  the run is late by less than an interval. -/
  ahead : ((get w.before).tick w.now).1 = .proceed → ∀ e ∈ (get w.after).scheduler.entries,
    w.now < e.due ↔
      gap.count.toInt < e.task.interval.count.toInt ∨ earlier.lag get < gap.count.toInt * 1000000

/-- All wake-ups of a run have drifted. -/
def Drifts (get : σ → Dispatcher) (start : Instant) (gap : Millis) (d : History (Wake σ)) : Prop :=
  ∀ later w earlier, d = later ++ w :: earlier → Drifting get start gap earlier w

theorem Drifts.nil {start : Instant} {gap : Millis} : Drifts get start gap ([] : History (Wake σ)) := by
  intro later w earlier nothing
  simp at nothing

theorem Drifts.cons {start : Instant} {gap : Millis} {d : History (Wake σ)} {w : Wake σ}
    (drifts : Drifts get start gap d) (drifting : Drifting get start gap d w) :
    Drifts get start gap (w :: d) := by
  intro later w' earlier same
  cases later with
  | nil =>
    obtain ⟨rfl, rfl⟩ := List.cons.inj same
    exact drifting
  | cons _ later => exact drifts later w' earlier (List.cons.inj same).2

namespace Adrift

variable {start last woke : Instant} {gap duration : Millis} {d : History (Wake σ)} {s t : σ}

/-- The next wake-up before the deadline comes an interval after the last one, and later by the part of
the work that was cut off. -/
theorem wake (adrift : Adrift get start gap last woke d s) (bounds : Bounds start gap duration last)
    (epoch : 0 ≤ last.nanos.toInt) (room : last.nanos.toInt + 1000000 ≤ 2 ^ 63) (sleeps : Sleeps get sleep)
    (wakes : Wakes get sleep (napLength get gap last woke s) s t)
    (sooner : (get t).clock.nanos.toInt < last.nanos.toInt) :
    (get t).scheduler.plan = (get s).scheduler.plan ∧ start.nanos.toInt ≤ (get t).clock.nanos.toInt ∧
      (get t).clock.nanos.toInt = start.slotTime gap (d.length + 1) + d.lag get ∧
      (get t).clock.nanos.toInt < woke.nanos.toInt + (gap.count.toInt + 1) * 1000000 := by
  have begun := adrift.begun
  have positive := bounds.positive
  have lag := adrift.lag
  have brief := adrift.brief
  have forward := adrift.forward
  have zero : (0 : Int64).toInt = 0 := by decide
  rw [Instant.slotTime_succ]
  cases wakes with
  | busy spent =>
    have value := bounds.length adrift.begun forward (Int.le_refl _) sooner
    rw [Int64.lt_iff_toInt_lt, zero, napLength, value] at spent
    omega
  | slept nap slept =>
    have clock := sleeps.clock _ _ _ slept
    rw [Int64.lt_iff_toInt_lt, zero] at nap
    have early : (get s).clock.nanos.toInt < last.nanos.toInt := by
      by_contra late
      have small := (get s).clock.nanos.toInt_lt
      have remaining : (last.since (get s).clock).toInt = last.nanos.toInt - (get s).clock.nanos.toInt :=
        Instant.toInt_since (by omega) (by omega)
      have none := Host.sleepLength_nonpos gap ((get s).clock.since woke) (remaining.trans_le (by omega))
      rw [← napLength] at none
      omega
    have value := bounds.length adrift.begun forward (Int.le_refl _) early
    rw [← napLength] at value
    have moved : (get t).clock.nanos.toInt = (get s).clock.nanos.toInt +
        (napLength get gap last woke s).count.toInt * 1000000 := by
      rw [clock]
      exact Instant.toInt_after (by omega) (by omega)
    refine ⟨sleeps.plan _ _ _ slept, ?_, ?_, ?_⟩
    · omega
    · omega
    · omega

/-- What the tick of a wake-up comes to. -/
theorem drifting (adrift : Adrift get start gap last woke d s) (bounds : Bounds start gap duration last)
    (lens : ∀ s d, get (set s d) = d) (plan : (get t).scheduler.plan = (get s).scheduler.plan)
    (comes : (get t).clock.nanos.toInt = start.slotTime gap (d.length + 1) + d.lag get)
    (pace : (get t).clock.nanos.toInt < woke.nanos.toInt + (gap.count.toInt + 1) * 1000000)
    (sooner : (get t).clock.nanos.toInt < last.nanos.toInt) (enabled : (get t).scheduler.enabled = true)
    {verdict : Verdict} {u : Dispatcher} (ticked : (get t).tick (get t).clock = (verdict, u)) :
    Drifting get start gap d ⟨(get t).clock, t, set t u⟩ ∧ (verdict = .proceed → u.scheduler.names.Nodup ∧
      ∀ r ∈ u.scheduler.plan.rows, r.OnSchedule start (get t).clock gap last (d.length + 1)) := by
  have names : (get t).scheduler.names = (get s).scheduler.names := by
    rw [← Scheduler.names_plan, plan, Scheduler.names_plan]
  have served : verdict = .proceed → u.scheduler.names.Nodup ∧
      ∀ r ∈ u.scheduler.plan.rows, r.OnSchedule start (get t).clock gap last (d.length + 1) := by
    rintro rfl
    have rows := (plan_tick (names ▸ adrift.distinct) enabled ticked).1
    constructor
    · have same : u.scheduler.names = (get s).scheduler.names := by
        rw [← Scheduler.names_plan, ← names, ← Scheduler.names_plan, Plan.names, Plan.names, rows,
          List.map_map]
        exact List.map_congr_left fun r _ => Row.name_serve _ r
      exact same ▸ adrift.distinct
    · intro r member
      rw [rows, plan] at member
      obtain ⟨before, listed, rfl⟩ := List.mem_map.mp member
      exact (adrift.rows before listed).serve bounds.positive (d.lag_nonneg get) comes pace sooner
  refine ⟨⟨comes, ?_⟩, served⟩
  intro proceeds e registered
  rw [lens] at registered
  obtain rfl : verdict = .proceed := by rw [← proceeds, ticked]
  have row := (served rfl).2 e.row (List.mem_map_of_mem registered)
  exact row.ahead_iff comes

/-- A run is adrift after a tick whose work takes less than an interval. -/
theorem of_tick (lens : ∀ s d, get (set s d) = d)
    {now : Instant} {u : Dispatcher} (begun : start.nanos.toInt ≤ now.nanos.toInt)
    (comes : now.nanos.toInt = start.slotTime gap (d.length + 1) + d.lag get)
    (after : u.scheduler.names.Nodup ∧
      ∀ r ∈ u.scheduler.plan.rows, r.OnSchedule start now gap last (d.length + 1))
    (work : 0 ≤ Wake.work get ⟨now, t, set t u⟩ ∧
      Wake.work get ⟨now, t, set t u⟩ < gap.count.toInt * 1000000) :
    Adrift get start gap last now (⟨now, t, set t u⟩ :: d) (set t u) := by
  obtain ⟨distinct, rows⟩ := after
  have spent : Wake.work get ⟨now, t, set t u⟩ = u.clock.nanos.toInt - now.nanos.toInt := by
    rw [Wake.work, lens]
  rw [spent] at work
  constructor
  · rw [lens]
    exact distinct
  · rw [lens]
    exact rows
  · exact begun
  · rw [lens]
    omega
  · rw [lens]
    omega
  · rw [lens, History.lag_cons, spent, List.length_cons, comes]
    omega

end Adrift

section

variable {start last woke : Instant} {gap duration : Millis} {d : History (Wake σ)} {s : σ} {rounds : Nat}

variable (gap last rounds woke d s) in
/-- The loop adds to the diary. -/
theorem suffix_loop_diary (h : Host σ) :
    d <:+ (h.diary.loop gap (some last) rounds woke (d, s)).2.1 := by
  have keeps : h.diary.Keeps (fun state => d <:+ state.1) (fun _ _ => True) := by
    constructor
    · exact fun _ longer => longer
    · exact fun _ longer => longer
    · intro length state longer
      show d <:+ ((h.sleep length state.2).map (Prod.mk state.1)).state.1
      cases h.sleep length state.2 <;> exact longer
    · exact fun _ _ longer => longer
    · intro now state longer
      exact longer.trans (List.suffix_cons _ _)
    · exact fun _ _ _ _ _ => trivial
  exact (Host.loop_keeps keeps gap (some last) rounds woke List.suffix_rfl).1

/-- Every wake-up of the loop has drifted. -/
theorem Adrift.loop (adrift : Adrift get start gap last woke d s) (bounds : Bounds start gap duration last)
    (epoch : 0 ≤ last.nanos.toInt) (room : last.nanos.toInt + 1000000 ≤ 2 ^ 63)
    (lens : ∀ s d, get (set s d) = d) (sleeps : Sleeps get sleep) (before : Drifts get start gap d)
    (works : ∀ w ∈ ((hostWithin get set sleep).diary.loop gap (some last) rounds woke (d, s)).2.1,
      (get w.before).scheduler.enabled = true ∧ 0 ≤ w.work get ∧ w.work get < gap.count.toInt * 1000000) :
    Drifts get start gap ((hostWithin get set sleep).diary.loop gap (some last) rounds woke (d, s)).2.1 := by
  induction rounds generalizing woke d s with
  | zero => exact before
  | succ rounds ih =>
    have rounded := Dispatcher.rounds set sleeps gap last woke d s
    unfold Host.loop at works ⊢
    cases round : (hostWithin get set sleep).diary.round gap (some last) woke (d, s) with
    | mk outcome state =>
      obtain ⟨d₁, s₁⟩ := state
      rw [round] at rounded works
      cases rounded with
      | ended => exact before
      | @ticked t u wakes sooner ticked =>
        have early := Int64.lt_iff_toInt_lt.mp (Int64.not_le.mp sooner)
        obtain ⟨plan, begun, comes, pace⟩ := adrift.wake bounds epoch room sleeps wakes early
        have kept := (suffix_loop_diary last (get t).clock gap (⟨(get t).clock, t, set t u⟩ :: d) (set t u)
          rounds (hostWithin get set sleep)).subset
        obtain ⟨enabled, work⟩ := works _ (kept List.mem_cons_self)
        obtain ⟨drifting, after⟩ := adrift.drifting bounds lens plan comes pace early enabled ticked
        exact ih (.of_tick lens begun comes (after rfl) work) (before.cons drifting) works
      | @stopped ended t v verdict u wakes sooner ticked stops =>
        have early := Int64.lt_iff_toInt_lt.mp (Int64.not_le.mp sooner)
        obtain ⟨plan, begun, comes, pace⟩ := adrift.wake bounds epoch room sleeps wakes early
        obtain ⟨enabled, _⟩ := works _ List.mem_cons_self
        exact before.cons (adrift.drifting bounds lens plan comes pace early enabled ticked).1

end

/-! ## Runs for a time -/

section

variable {m : Moment} {scheduler : Scheduler} {workers rounds : Nat} {allowed : Move → Prop} {s : σ}
  {duration : Millis}

/-- Before a run, tasks that were registered at its start are on schedule. -/
theorem onSchedule_of_fresh {start last : Instant} {r : Row} {gap : Millis} (positive : 0 < gap.count.toInt)
    (least : gap.count.toInt ≤ r.interval.count.toInt) (due : r.due = start.after r.interval)
    (ahead : start.nanos.toInt ≤ last.nanos.toInt)
    (fits : last.nanos.toInt + r.interval.count.toInt * 1000000 < 2 ^ 63) :
    r.OnSchedule start start gap last 0 := by
  have value : r.due.nanos.toInt = start.nanos.toInt + r.interval.count.toInt * 1000000 := by
    rw [due]
    exact Instant.toInt_after (by omega) (by omega)
  refine ⟨least, ?_, ?_, fits⟩
  · intro same
    rw [value, same]
    simp [Instant.slotTime]
  · intro _
    omega

/-- Before the first round of a run nothing has drifted. -/
theorem Adrift.of_fresh {last : Instant} (lens : ∀ s d, get (set s d) = d)
    (distinct : (get s).scheduler.names.Nodup) (gauged : (get s).scheduler.plan.Gauged)
    (fresh : ∀ e ∈ (get s).scheduler.entries, e.due = (get s).clock.after e.task.interval)
    (ahead : (get s).clock.nanos.toInt ≤ last.nanos.toInt)
    (fits : ∀ e ∈ (get s).scheduler.entries,
      last.nanos.toInt + e.task.interval.count.toInt * 1000000 < 2 ^ 63) :
    Adrift get (get s).clock (get s).scheduler.minInterval last (get s).clock []
      (set s (get s).start) := by
  have plan : (get s).start.scheduler.plan = (get s).scheduler.plan := by simp
  have clock : (get s).start.clock = (get s).clock := (get s).clock_start
  have positive := gauged.positive
  constructor
  · rw [lens, ← Scheduler.names_plan, plan, Scheduler.names_plan]
    exact distinct
  · intro r member
    rw [lens, plan] at member
    obtain ⟨e, registered, rfl⟩ := List.mem_map.mp member
    exact onSchedule_of_fresh positive (gauged.le registered) (fresh e registered) ahead
      (fits e registered)
  · exact Int.le_refl _
  · rw [lens, clock]
  · rw [lens, clock]
    omega
  · rw [lens, clock]
    simp [Instant.slotTime, History.lag]

variable (sleep) in
/-- A run for a time is a loop from the instant on at which it begins. -/
theorem diary_run_eq_loop (lens : ∀ s d, get (set s d) = d) (duration : Millis) (rounds : Nat) (s : σ) :
    (hostWithin get set sleep).diary.run (.some duration) rounds ([], s) =
      (hostWithin get set sleep).diary.loop (get s).scheduler.minInterval
        (.some ((get s).clock.after duration)) rounds (get s).clock ([], set s (get s).start) := by
  have gap : (get s).start.scheduler.minInterval = (get s).scheduler.minInterval :=
    congrArg Plan.shortest (show (get s).start.scheduler.plan = (get s).scheduler.plan by simp)
  have woke : (get (set s (get s).start)).clock = (get s).clock := by
    rw [lens]
    exact (get s).clock_start
  show (hostWithin get set sleep).diary.loop (get s).start.scheduler.minInterval
    (.some ((get s).clock.after duration)) rounds (get (set s (get s).start)).clock
      ([], set s (get s).start) = _
  rw [woke, gap]

/-- In a run for a time, from the instant on at which the tasks were registered, whose work always takes
less than the shortest interval, each wake-up is late by the parts of the work below a millisecond; a task
with the shortest interval is up to date after a tick if and only if these add up to less than the
interval, and every other task is.  So a run whose work takes whole milliseconds keeps up with all tasks.
-/
theorem keeps_up_iff (lens : ∀ s d, get (set s d) = d) (sleeps : Sleeps get sleep)
    (created : Scheduler.create workers = .ok scheduler)
    (reached : Moment.Reaches allowed (.initial scheduler) m) (same : get s = m.dispatcher)
    (some : m.dispatcher.scheduler.entries ≠ [])
    (fresh : ∀ e ∈ m.dispatcher.scheduler.entries, e.due = m.dispatcher.clock.after e.task.interval)
    (epoch : 0 ≤ m.dispatcher.clock.nanos.toInt) (forward : 0 ≤ duration.count.toInt)
    (fits : ∀ e ∈ m.dispatcher.scheduler.entries, m.dispatcher.clock.nanos.toInt +
      duration.count.toInt * 1000000 + e.task.interval.count.toInt * 1000000 < 2 ^ 63)
    (works : ∀ w ∈ ((hostWithin get set sleep).diary.run (.some duration) rounds ([], s)).2.1,
      (get w.before).scheduler.enabled = true ∧ 0 ≤ w.work get ∧
        w.work get < m.dispatcher.scheduler.minInterval.count.toInt * 1000000) :
    ∃ outcome wakes t, (hostWithin get set sleep).run (.some duration) rounds s = (outcome, t) ∧
      (hostWithin get set sleep).diary.run (.some duration) rounds ([], s) = (outcome, wakes, t) ∧
      Drifts get m.dispatcher.clock m.dispatcher.scheduler.minInterval wakes ∧
      ((∀ w ∈ wakes, w.work get % 1000000 = 0) → ∀ w ∈ wakes, ((get w.before).tick w.now).1 = .proceed →
        ∀ e ∈ (get w.after).scheduler.entries, w.now < e.due) := by
  rw [← same] at some fresh epoch fits works ⊢
  have gauged : (get s).scheduler.plan.Gauged := same ▸ reached.gauged created
  have positive := gauged.positive
  have distinct : (get s).scheduler.names.Nodup := same ▸ (reached.sound created).scheduler.distinct
  obtain ⟨e₀, registered⟩ := List.exists_mem_of_ne_nil _ some
  have interval := e₀.task.one_le_interval
  have room := fits e₀ registered
  have deadline : ((get s).clock.after duration).nanos.toInt =
      (get s).clock.nanos.toInt + duration.count.toInt * 1000000 :=
    Instant.toInt_after forward (by omega)
  have bounds : Bounds (get s).clock (get s).scheduler.minInterval duration
      ((get s).clock.after duration) := ⟨positive, deadline, by omega⟩
  have adrift : Adrift get (get s).clock (get s).scheduler.minInterval ((get s).clock.after duration)
      (get s).clock [] (set s (get s).start) := by
    refine .of_fresh lens distinct gauged fresh (by omega) ?_
    rw [deadline]
    exact fits
  have begins := diary_run_eq_loop sleep lens duration rounds s
  have plain := (hostWithin get set sleep).run_diary (.some duration) rounds [] s
  rw [begins] at works plain
  have drifts := adrift.loop bounds (by omega) (by omega) lens sleeps .nil works
  refine ⟨_, _, _, plain, begins, drifts, ?_⟩
  intro whole w made proceeds e listed
  obtain ⟨later, earlier, split⟩ := List.append_of_mem made
  have none : History.lag get earlier = 0 :=
    History.lag_eq_zero fun v old => whole v (split ▸ List.mem_append_right _ (List.mem_cons_of_mem _ old))
  refine ((drifts later w earlier split).ahead proceeds e listed).mpr (.inr ?_)
  rw [none]
  omega

/-! ## A sample run

A task comes due every millisecond, and its body works for a nanosecond less.  The first wake-up is in
time, the second is late by almost a millisecond, and the third by almost two. -/

namespace Laggard

def task : Task where
  name := "laggard"
  interval := ⟨1⟩
  capabilities := .none
  body := { work := 999999 }
  name_ne := by decide
  interval_pos := by decide

def moves : List Move := [.register (.some task) .epoch, .act (.setEnabled true)]

def moment : Moment := (Moment.lead (.initial Sample.scheduler) moves).2

/-- The ticks of a run for five milliseconds. -/
def wakes : History (Wake Dispatcher) := (host.diary.run (.some ⟨5⟩) 4 ([], moment.dispatcher)).2.1

end Laggard

/-- In the sample all work takes less than an interval, and yet the task falls behind. -/
theorem falls_behind :
    (∀ e ∈ Laggard.moment.dispatcher.scheduler.entries,
      e.due = Laggard.moment.dispatcher.clock.after e.task.interval) ∧
    (∀ w ∈ Laggard.wakes, w.before.scheduler.enabled = true ∧ 0 ≤ w.work id ∧ w.work id < 1000000) ∧
    ∃ w ∈ Laggard.wakes, (w.before.tick w.now).1 = .proceed ∧
      ∃ e ∈ w.after.scheduler.entries, ¬ w.now < e.due := by
  refine ⟨by decide +kernel, by decide +kernel, by decide +kernel⟩

/-- In the sample the second tick is late by less than an interval, and the third by more. -/
theorem keeps_up_iff_sample :
    Laggard.wakes.map (·.now.nanos.toInt) = [4999998, 2999999, 1000000] ∧
      Drifts id .epoch ⟨1⟩ Laggard.wakes := by
  have passed : Moment.Passes (fun _ => True) (.initial Sample.scheduler)
      (Moment.lead (.initial Sample.scheduler) Laggard.moves).1 Laggard.moment :=
    Moment.passes_lead (fun _ _ => trivial) (by decide +kernel)
  have works : ∀ w ∈ (host.diary.run (.some ⟨5⟩) 4 ([], Laggard.moment.dispatcher)).2.1,
      w.before.scheduler.enabled = true ∧ 0 ≤ w.work id ∧
        w.work id < Laggard.moment.dispatcher.scheduler.minInterval.count.toInt * 1000000 := by
    decide +kernel
  obtain ⟨_, wakes, _, _, run, drifts, _⟩ := keeps_up_iff (fun _ _ => rfl) sleeps_host Sample.created
    passed.reaches rfl (by decide +kernel) (by decide +kernel) (by decide +kernel) (by decide +kernel)
    (by decide +kernel) works
  have same : Laggard.wakes = wakes := congrArg (·.2.1) run
  have start : Laggard.moment.dispatcher.clock = .epoch := by decide +kernel
  have gap : Laggard.moment.dispatcher.scheduler.minInterval = ⟨1⟩ := by decide +kernel
  rw [start, gap, ← same] at drifts
  exact ⟨by decide +kernel, drifts⟩

end

end Dispatcher

end Cadence

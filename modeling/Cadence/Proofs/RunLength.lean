import Cadence.Proofs.DemoRun
import Cadence.Proofs.Grammar

/-!
How long a run lasts that is asked for some seconds.

The deadline is the instant the run begins at, and so many seconds later, up to the size of a word.  A run
that ends because its time is over has read the clock at its deadline or later (`Host.run_limit`), so it has
lasted as long as it was asked for if and only if the clock can show the end of that time.  The command line
does not see to that: it takes any number of seconds that a word holds, and when the demonstration is asked
for more than some 292 years, its deadline may have passed before it begins (`Demo.perform_past`).
-/

namespace Cadence

namespace Instant

variable (t : Instant) (seconds : Nat)

/-- Adding some seconds is exact up to the size of a word. -/
theorem toInt_after_ofSeconds : (t.after (.ofSeconds seconds)).nanos.toInt =
    (t.nanos.toInt + seconds * 1000000000).bmod (2 ^ 64) := by
  have thousand : (1000 : Int64).toInt = 1000 := by decide
  have size : Int64.size = 2 ^ 64 := rfl
  rw [toInt_after_eq_bmod, Millis.ofSeconds, Int64.toInt_mul, thousand, Int64.toInt_ofNat', size,
    ← Int.add_bmod_bmod, Int.bmod_mul_bmod, mul_assoc, Int.bmod_mul_bmod, Int.add_bmod_bmod]
  norm_num

/-- It is exact if the clock shows the instant. -/
theorem toInt_after_ofSeconds_iff :
    (t.after (.ofSeconds seconds)).nanos.toInt = t.nanos.toInt + seconds * 1000000000 ↔
      t.nanos.toInt + seconds * 1000000000 < 2 ^ 63 := by
  have low := t.nanos.le_toInt
  exact toInt_eq_iff_of_bmod (t.toInt_after_ofSeconds seconds) (by omega)

end Instant

namespace Host

variable {σ : Type} {h : Host σ} {gap d : Millis} {last woke : Instant} {rounds : Nat} {s t : σ}

/-- The clock was read last at an instant. -/
def ReadLast (h : Host σ) (wake : Instant) (t : σ) : Prop := ∃ u, h.read u = (wake, t)

theorem round_limit (ended : h.round gap (some last) woke s = (.error (.exit .timeLimit), t)) :
    ∃ wake, h.ReadLast wake t ∧ last ≤ wake := by
  unfold round at ended
  split at ended
  · cases ended
  · rename_i u paused
    simp only [wakeUp, Option.any_some] at ended
    split at ended
    · rename_i late
      cases ended
      exact ⟨_, ⟨u, rfl⟩, of_decide_eq_true late⟩
    · split at ended <;> cases ended

theorem loop_limit (ended : h.loop gap (some last) rounds woke s = (.exit .timeLimit, t)) :
    ∃ wake, h.ReadLast wake t ∧ last ≤ wake := by
  induction rounds generalizing woke s with
  | zero => cases ended
  | succ rounds ih =>
    unfold loop at ended
    split at ended
    · exact ih ended
    · rename_i round
      cases ended
      exact round_limit round

/-- A run that ends because its time is over has read the clock at its deadline or later. -/
theorem run_limit (ended : h.run (some d) rounds s = (.exit .timeLimit, t)) :
    ∃ wake, h.ReadLast wake t ∧ (h.read s).1.after d ≤ wake :=
  loop_limit ended

/-- What becomes of a run for some seconds: its deadline, which is to be at a promised time, and what the
clock showed when it ended because its time was over. -/
structure Lasts (h : Host σ) (seconds : Nat) (s : σ) (promised : Int) (last : Instant) : Prop where
  deadline : (h.deadline (some (.ofSeconds seconds)) s).1 = some last
  word : last.nanos.toInt = promised.bmod (2 ^ 64)
  /-- The deadline is as promised if the clock can show it. -/
  exact_iff : last.nanos.toInt = promised ↔ promised < 2 ^ 63
  /-- Only then a run that ends because its time is over does not end before the promised time. -/
  honours : ∀ rounds t, h.run (some (.ofSeconds seconds)) rounds s = (.exit .timeLimit, t) →
    ∃ wake, h.ReadLast wake t ∧ last ≤ wake ∧ (promised ≤ wake.nanos.toInt ↔ promised < 2 ^ 63)

theorem lasts (h : Host σ) (seconds : Nat) (s : σ) :
    ∃ last, h.Lasts seconds s ((h.read s).1.nanos.toInt + seconds * 1000000000) last := by
  have exact_iff := (h.read s).1.toInt_after_ofSeconds_iff seconds
  refine ⟨_, rfl, (h.read s).1.toInt_after_ofSeconds seconds, exact_iff, fun rounds t ended => ?_⟩
  obtain ⟨wake, read, late⟩ := run_limit ended
  refine ⟨wake, read, late, ?_, fun fits => ?_⟩
  · intro passed
    exact lt_of_le_of_lt passed wake.nanos.toInt_lt
  · rw [← exact_iff.mpr fits]
    exact Int64.le_iff_toInt_le.mp late

end Host

namespace Demo

variable {o : Options} {s : Dispatcher} {d : Demo}

/-- A demonstration that ends because its time is over has come to its deadline. -/
theorem perform_limit (ended : perform o s = (.exit .timeLimit, d)) :
    s.clock.after (.ofSeconds o.seconds) ≤ d.dispatcher.clock := by
  unfold perform at ended
  cases ran : host.run (some (.ofSeconds o.seconds)) (maxRounds o.seconds)
    { dispatcher := s, nextTable := s.clock.after tablePeriod } with
  | mk outcome last =>
    simp only [ran] at ended
    cases ended
    obtain ⟨wake, ⟨u, read⟩, late⟩ := Host.run_limit ran
    cases read
    exact late

/-- A round that begins at the deadline or after it ends the loop, without a sleep. -/
theorem round_past {gap : Millis} {last : Instant} (late : last ≤ d.dispatcher.clock)
    (near : d.dispatcher.clock.nanos.toInt - last.nanos.toInt < 2 ^ 63) :
    host.round gap (some last) d.dispatcher.clock d = (.error (.exit .timeLimit), d) := by
  have next := nextSleep_eq gap last d
  have before := Int64.le_iff_toInt_le.mp late
  have remaining : (last.since d.dispatcher.clock).toInt ≤ 0 := by
    rw [Instant.toInt_since (by omega) (by omega)]
    omega
  have awake : ¬ 0 < (Host.sleepLength gap 0 (some (last.since d.dispatcher.clock))).count := by
    rw [Int64.lt_iff_toInt_lt]
    exact not_lt.mpr (Host.sleepLength_nonpos gap 0 remaining)
  have read : host.read d = (d.dispatcher.clock, d) := rfl
  simp [Host.round, Host.pause, Host.sleepIfPositive, next, if_neg awake, read, Host.wakeUp, late]

/-- A demonstration whose deadline has passed before it begins ends at once. -/
theorem perform_past (late : s.clock.after (.ofSeconds o.seconds) ≤ s.clock)
    (near : s.clock.nanos.toInt - (s.clock.after (.ofSeconds o.seconds)).nanos.toInt < 2 ^ 63) :
    ∃ d, perform o s = (.exit .timeLimit, d) ∧ d.dispatcher.clock = s.clock := by
  have clock := s.clock_start
  let first : Demo := { dispatcher := s.start, nextTable := s.clock.after tablePeriod }
  have round : host.round s.start.scheduler.minInterval (some (s.clock.after (.ofSeconds o.seconds)))
      first.dispatcher.clock first = (.error (.exit .timeLimit), first) :=
    round_past (by rwa [clock]) (by rwa [clock])
  have ran : host.run (some (.ofSeconds o.seconds)) (maxRounds o.seconds)
      { dispatcher := s, nextTable := s.clock.after tablePeriod } = (.exit .timeLimit, first) := by
    show host.loop s.start.scheduler.minInterval (some (s.clock.after (.ofSeconds o.seconds)))
      (maxRounds o.seconds) first.dispatcher.clock first = _
    rw [maxRounds, Host.loop, round]
  refine ⟨first.print, ?_, clock⟩
  simp only [perform, ran]

/-- How long the demonstration lasts that is asked for some seconds. -/
structure Lasts (o : Options) (s : Dispatcher) : Prop where
  ends : 1 ≤ o.seconds → o.seconds ≤ 9223372036 → ∃ d, perform o s = (.exit .timeLimit, d)
  honours : ∀ d, perform o s = (.exit .timeLimit, d) →
    (o.seconds * 1000000000 ≤ d.dispatcher.clock.nanos.toInt ↔ o.seconds ≤ 9223372036)
  /-- The first deadlines that the clock does not show have passed already. -/
  atOnce : 9223372036 < o.seconds → o.seconds ≤ 18446744073 →
    ∃ d, perform o s = (.exit .timeLimit, d) ∧ d.dispatcher.clock = .epoch

theorem lasts (start : Furnished o.workers (collectors o.overload) s)
    (enabled : s.scheduler.enabled = true) (mode : s.scheduler.mode = o.mode) : Lasts o s := by
  have zero : Instant.epoch.nanos.toInt = 0 := by decide
  have deadline := s.clock.toInt_after_ofSeconds o.seconds
  have exact_iff := s.clock.toInt_after_ofSeconds_iff o.seconds
  rw [start.clock, zero] at deadline exact_iff
  constructor
  · intro lasting small
    obtain ⟨m, d, _, _, ran⟩ := start.perform enabled mode lasting (by omega)
    exact ⟨d, ran⟩
  · intro d ended
    have late := Int64.le_iff_toInt_le.mp (perform_limit ended)
    rw [start.clock] at late
    have range := d.dispatcher.clock.nanos.toInt_lt
    constructor
    · intro passed
      omega
    · intro small
      have same := exact_iff.mpr (by omega)
      omega
  · intro large once
    have past : (Instant.epoch.after (.ofSeconds o.seconds)).nanos.toInt =
        o.seconds * 1000000000 - 2 ^ 64 := by
      rw [deadline, Int.bmod_eq_iff (by decide)]
      exact ⟨by omega, by omega, -1, by omega⟩
    have late : s.clock.after (.ofSeconds o.seconds) ≤ s.clock := by
      rw [start.clock, Instant.le_iff, Int64.le_iff_toInt_le]
      omega
    obtain ⟨d, ran, clock⟩ := perform_past late (by rw [start.clock]; omega)
    exact ⟨d, ran, clock.trans start.clock⟩

end Demo

/-- The command line takes any number of seconds that a word holds.  A run that ends because its time is over
lasts as many seconds as it was asked for if and only if the clock can show the end of them; for the
demonstration, if and only if these are no more than some 292 years. -/
theorem Options.seconds_honoured_iff {arguments : List String} {o : Options}
    (accepted : Options.ofArguments? arguments = some o) :
    o.seconds < 2 ^ 63 ∧
    (∀ (σ : Type) (h : Host σ) (s : σ),
      ∃ last, h.Lasts o.seconds s ((h.read s).1.nanos.toInt + o.seconds * 1000000000) last) ∧
    ∃ s, Demo.setUp o = .ok s ∧ s.clock = .epoch ∧ Demo.Lasts o s := by
  have positive : 0 < o.workers := Options.workers_pos accepted (by decide)
  obtain ⟨s, furnished, start, enabled, mode⟩ := Demo.setUp_furnished o positive
  exact ⟨Options.seconds_lt accepted (by decide), fun σ h s => h.lasts o.seconds s, s, furnished,
    start.clock, Demo.lasts start enabled mode⟩

/-- The largest number of seconds that is honoured, some 292 years. -/
theorem Options.seconds_honoured_iff_sample :
    let o : Options := { seconds := 9223372036 }
    Options.ofArguments? ["demo", "--seconds", "9223372036"] = some o ∧
      ∃ s d, Demo.setUp o = .ok s ∧ Demo.perform o s = (.exit .timeLimit, d) ∧
        9223372036000000000 ≤ d.dispatcher.clock.nanos.toInt := by
  have accepted : Options.ofArguments? ["demo", "--seconds", "9223372036"] =
      some { seconds := 9223372036 } := by decide +kernel
  obtain ⟨_, _, s, furnished, _, lasts⟩ := Options.seconds_honoured_iff accepted
  obtain ⟨d, ran⟩ := lasts.ends (by decide) (by decide)
  exact ⟨accepted, s, d, furnished, ran, (lasts.honours d ran).mpr (by decide)⟩

/-- A demonstration of one second more is accepted, but its deadline lies before the epoch, and it ends at
once because its time is over. -/
theorem Demo.ends_at_once :
    let o : Options := { seconds := 9223372037 }
    Options.ofArguments? ["demo", "--seconds", "9223372037"] = some o ∧
      (Instant.epoch.after (.ofSeconds 9223372037)).nanos.toInt = -9223372036709551616 ∧
      ((Demo.setUp o).map fun s => (s.clock, (Demo.perform o s).1,
        (Demo.perform o s).2.dispatcher.clock)) = .ok (.epoch, .exit .timeLimit, .epoch) := by
  decide +kernel

end Cadence

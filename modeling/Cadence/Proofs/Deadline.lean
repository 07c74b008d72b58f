import Cadence.Proofs.Chronicle
import Cadence.Proofs.Punctuality
import Cadence.Proofs.Timetable

/-!
A run for a time ends in time.

The clock is anyone's, as long as it does not go back and a sleep that does not fail takes its time
(`History.Monotone`).  A round that makes a tick has taken a shortest interval, or a sleep failed in it
(`Underway.pausing`), because a sleep that is cut short by the deadline reaches it.  So the number of
ticks is bounded, and the loop ends (`Host.ends_in_time`).
-/

namespace Cadence

/-! ## Clocks -/

namespace History

/-- The least that the clock can show next: it does not go back, and a sleep takes its time, unless it
fails. -/
def lowest : History Happening → Int
  | [] => -2 ^ 63
  | .read now :: _ => now.nanos.toInt
  | .slept length :: c => lowest c + length.toNat * 1000000
  | .failed _ :: c | .halted _ :: c | .ticked _ _ :: c => lowest c

/-- The clock does not go back, and sleeps take their time. -/
def Monotone : History Happening → Prop
  | [] => True
  | .read now :: c => lowest c ≤ now.nanos.toInt ∧ Monotone c
  | .slept _ :: c | .failed _ :: c | .halted _ :: c | .ticked _ _ :: c => Monotone c

instance decidableMonotone : (c : History Happening) → Decidable c.Monotone
  | [] => isTrue trivial
  | .read now :: c =>
    have : Decidable (History.Monotone c) := decidableMonotone c
    inferInstanceAs (Decidable (lowest c ≤ now.nanos.toInt ∧ History.Monotone c))
  | .slept _ :: c | .failed _ :: c | .halted _ :: c | .ticked _ _ :: c => decidableMonotone c

variable {c later : History Happening}

theorem Monotone.tail {x : Happening} (monotone : History.Monotone (x :: c)) : c.Monotone := by
  cases x with
  | read now => exact monotone.2
  | _ => exact monotone

theorem Monotone.of_suffix (suffix : c <:+ later) (monotone : later.Monotone) : c.Monotone := by
  induction later with
  | nil => rwa [List.suffix_nil.mp suffix]
  | cons x later ih =>
    rcases List.suffix_cons_iff.mp suffix with rfl | shorter
    · exact monotone
    · exact ih shorter monotone.tail

end History

/-! ## Rounds -/

/-- What holds of the chronicle of a run up to a deadline. -/
structure InTime (last : Instant) (c : History Happening) : Prop where
  /-- No tick comes at the deadline or after it. -/
  early : ∀ now verdict, .ticked now verdict ∈ c → now < last
  /-- A sleep that begins before the deadline ends less than a millisecond after it. -/
  short : ∀ later nap length now earlier, c = later ++ nap :: .read now :: earlier →
    nap.nap? = some length → now < last →
      now.nanos.toInt + length.count.toInt * 1000000 < last.nanos.toInt + 1000000

namespace InTime

variable {last : Instant} {c : History Happening}

theorem cons (inTime : InTime last c) {x : Happening}
    (early : ∀ now verdict, x = .ticked now verdict → now < last)
    (short : ∀ length now earlier, c = .read now :: earlier → x.nap? = some length → now < last →
      now.nanos.toInt + length.count.toInt * 1000000 < last.nanos.toInt + 1000000) :
    InTime last (x :: c) := by
  constructor
  · intro now verdict member
    rcases List.mem_cons.mp member with same | member
    · exact early now verdict same.symm
    · exact inTime.early now verdict member
  · intro later nap length now earlier same sleeps before
    cases later with
    | nil =>
      obtain ⟨rfl, rest⟩ := List.cons.inj same
      exact short length now earlier rest sleeps before
    | cons y later =>
      obtain ⟨rfl, rest⟩ := List.cons.inj same
      exact inTime.short later nap length now earlier rest sleeps before

theorem read (inTime : InTime last c) (now : Instant) : InTime last (.read now :: c) :=
  inTime.cons (by simp) (by simp [Happening.nap?])

theorem ticked (inTime : InTime last c) {now : Instant} (sooner : now < last) (verdict : Verdict) :
    InTime last (.ticked now verdict :: c) := by
  refine inTime.cons ?_ (by simp [Happening.nap?])
  rintro other verdict' same
  cases same
  exact sooner

end InTime

/-- A run before its next round, since a wake-up. -/
structure Underway (start : Instant) (gap duration : Millis) (last woke : Instant)
    (c : History Happening) : Prop where
  inTime : InTime last c
  begun : start.nanos.toInt ≤ woke.nanos.toInt
  lowest : woke.nanos.toInt ≤ c.lowest
  /-- Each tick took an interval, unless a sleep failed. -/
  pace : start.nanos.toInt + c.made * (gap.count.toInt * 1000000) ≤
    woke.nanos.toInt + c.fails * (gap.count.toInt * 1000000)
  few : c.made ≤ c.fails + duration.intervals gap

/-- The instants and the spans of a run up to a deadline. -/
structure Bounds (start : Instant) (gap duration : Millis) (last : Instant) : Prop where
  positive : 0 < gap.count.toInt
  deadline : last.nanos.toInt = start.nanos.toInt + duration.count.toInt * 1000000
  span : duration.count.toInt * 1000000 < 2 ^ 63

section

variable {start last woke : Instant} {gap duration : Millis} {c c₁ : History Happening} {awake : Bool}

/-- Before the deadline the length of a sleep is known. -/
theorem Bounds.length (bounds : Bounds start gap duration last)
    (begun : start.nanos.toInt ≤ woke.nanos.toInt) {a b : Instant}
    (passed : woke.nanos.toInt ≤ a.nanos.toInt) (reads : a.nanos.toInt ≤ b.nanos.toInt)
    (before : b.nanos.toInt < last.nanos.toInt) :
    (Host.sleepLength gap (a.since woke) (some (last.since b))).count.toInt =
      min (gap.count.toInt - (a.nanos.toInt - woke.nanos.toInt) / 1000000)
        ((last.nanos.toInt - b.nanos.toInt + 999999) / 1000000) := by
  have deadline := bounds.deadline
  have span := bounds.span
  have elapsed : (a.since woke).toInt = a.nanos.toInt - woke.nanos.toInt :=
    Instant.toInt_since (by omega) (by omega)
  have remaining : (last.since b).toInt = last.nanos.toInt - b.nanos.toInt :=
    Instant.toInt_since (by omega) (by omega)
  rw [← elapsed, ← remaining]
  rw [Host.toInt_sleepLength bounds.positive.le (by omega)]
  omega

/-- What a pause adds to the chronicle of a run that is under way. -/
structure Pausing (gap : Millis) (last woke : Instant) (c : History Happening) (awake : Bool)
    (c₁ : History Happening) : Prop where
  inTime : InTime last c₁
  made : c₁.made = c.made
  verdict : c₁.lastVerdict? = c.lastVerdict?
  lowest : woke.nanos.toInt ≤ c₁.lowest
  fails : c.fails ≤ c₁.fails
  /-- At a wake-up before the deadline an interval has passed, or the sleep failed. -/
  pace : awake = true → ∀ now : Instant, c₁.lowest ≤ now.nanos.toInt →
    now.nanos.toInt < last.nanos.toInt →
      woke.nanos.toInt + gap.count.toInt * 1000000 ≤ now.nanos.toInt ∨ c₁.fails = c.fails + 1

/-- A sleep that begins before the deadline is not longer than the time that is left, rounded up. -/
theorem Underway.slept (under : Underway start gap duration last woke c)
    (bounds : Bounds start gap duration last) {a b : Instant} {length : Millis} {nap : Happening}
    (sleeps : nap.nap? = some length) (monotone : History.Monotone (.read b :: .read a :: c))
    (due : length = Host.sleepLength gap (a.since woke) (some (last.since b))) :
    InTime last (nap :: .read b :: .read a :: c) := by
  refine ((under.inTime.read a).read b).cons ?_ ?_
  · rintro now verdict rfl
    cases sleeps
  · rintro length' now earlier same sleeps' before
    obtain ⟨rfl, _⟩ := (List.cons.injEq ..).mp same |>.imp_left Happening.read.inj
    obtain rfl : length = length' := Option.some.inj (sleeps.symm.trans sleeps')
    obtain ⟨later, first, _⟩ := monotone
    have early := Int64.lt_iff_toInt_lt.mp before
    have value := bounds.length under.begun (under.lowest.trans first) later early
    rw [← due] at value
    omega

/-- A pause of a run that is under way. -/
theorem Underway.pausing (under : Underway start gap duration last woke c)
    (bounds : Bounds start gap duration last) (paused : Paused gap last woke c awake c₁)
    (monotone : c₁.Monotone) : Pausing gap last woke c awake c₁ := by
  have positive := bounds.positive
  have lowest := under.lowest
  have zero : (0 : Int64).toInt = 0 := by decide
  cases paused with
  | @busy a b spent =>
    obtain ⟨later, first, _⟩ := monotone
    refine ⟨(under.inTime.read a).read b, rfl, rfl, ?_, Nat.le_refl _, ?_⟩
    · exact (lowest.trans first).trans later
    · intro _ now since before
      have value := bounds.length under.begun (lowest.trans first) later (lt_of_le_of_lt since before)
      rw [Int64.lt_iff_toInt_lt, zero, value] at spent
      simp only [History.lowest] at since first later
      left
      omega
  | @slept a b length nap due =>
    have whole := monotone
    obtain ⟨later, first, _⟩ := monotone
    rw [Int64.lt_iff_toInt_lt, zero] at nap
    have total := Millis.toInt_count nap.le
    refine ⟨under.slept bounds rfl whole due, rfl, rfl, ?_, Nat.le_refl _, ?_⟩
    · simp only [History.lowest] at first later ⊢
      omega
    · intro _ now since before
      simp only [History.lowest] at since first later
      have value := bounds.length under.begun (lowest.trans first) later (by omega)
      rw [← due] at value
      left
      omega
  | @failed a b length nap due =>
    have whole := monotone
    obtain ⟨later, first, _⟩ := monotone
    refine ⟨under.slept bounds rfl whole due, rfl, rfl, ?_, ?_, ?_⟩
    · exact (lowest.trans first).trans later
    · simp [History.fails, Happening.isFailed]
    · intro _ now since before
      exact .inr (by simp [History.fails, Happening.isFailed])
  | @halted a b length nap due =>
    have whole := monotone
    obtain ⟨later, first, _⟩ := monotone
    refine ⟨under.slept bounds rfl whole due, rfl, rfl, ?_, Nat.le_refl _, by simp⟩
    exact (lowest.trans first).trans later

/-- If every tick took an interval or a failed sleep, then there were not more of them than intervals and
failed sleeps. -/
theorem Bounds.few (bounds : Bounds start gap duration last) {now : Instant} {ticks fails : Nat}
    (pace : start.nanos.toInt + ticks * (gap.count.toInt * 1000000) ≤
      now.nanos.toInt + fails * (gap.count.toInt * 1000000))
    (before : now.nanos.toInt < last.nanos.toInt) : ticks ≤ fails + duration.intervals gap := by
  have deadline := bounds.deadline
  have positive := bounds.positive
  have length := Millis.toInt_count positive.le
  by_cases covered : ticks ≤ fails
  · omega
  obtain ⟨k, rfl⟩ : ∃ k, ticks = fails + (k + 1) := ⟨ticks - fails - 1, by omega⟩
  have room : (k + 1 : Nat) * gap.count.toInt < duration.count.toInt := by
    push_cast at pace ⊢
    nlinarith
  have fits : (k + 1) * gap.toNat < duration.toNat := by
    have forward : 0 ≤ duration.count.toInt := by
      have : 0 ≤ (k + 1 : Nat) * gap.count.toInt := by positivity
      omega
    have total := Millis.toInt_count forward
    rw [length, total] at room
    exact_mod_cast room
  have counted := (Millis.lt_intervals_iff (by omega)).mpr fits
  omega

/-- A tick before the deadline leaves the run under way. -/
theorem Underway.ticked (under : Underway start gap duration last woke c)
    (bounds : Bounds start gap duration last) (pausing : Pausing gap last woke c true c₁) {now : Instant}
    (since : c₁.lowest ≤ now.nanos.toInt) (sooner : ¬ last ≤ now) (verdict : Verdict) :
    Underway start gap duration last now (.ticked now verdict :: .read now :: c₁) := by
  have before : now < last := Int64.not_le.mp sooner
  have earlier := Int64.lt_iff_toInt_lt.mp before
  have lowest := pausing.lowest
  have begun := under.begun
  have made : History.made (.ticked now verdict :: .read now :: c₁) = c.made + 1 := by
    rw [← pausing.made]
    simp [History.made, Happening.verdict?]
  have fails : History.fails (.ticked now verdict :: .read now :: c₁) = c₁.fails := by
    simp [History.fails, Happening.isFailed]
  have pace : start.nanos.toInt + (c.made + 1 : Nat) * (gap.count.toInt * 1000000) ≤
      now.nanos.toInt + c₁.fails * (gap.count.toInt * 1000000) := by
    have pace := under.pace
    have positive := bounds.positive
    push_cast
    rcases pausing.pace rfl now since earlier with passed | failed
    · have more : (c.fails : Int) ≤ c₁.fails := by exact_mod_cast pausing.fails
      nlinarith
    · rw [failed]
      push_cast
      nlinarith
  constructor
  · exact (pausing.inTime.read now).ticked before verdict
  · omega
  · exact Int.le_refl _
  · rw [made, fails]
    exact pace
  · rw [made, fails]
    exact bounds.few pace earlier

end

/-! ## Runs -/

/-- What is known of a run up to a deadline when it has come to an end: the number of its ticks when the
rounds were given, the number of rounds, what it came to, and its chronicle. -/
structure Concluded (gap duration : Millis) (last : Instant) (ticks rounds : Nat) (outcome : Ended)
    (c : History Happening) : Prop where
  inTime : InTime last c
  few : c.made ≤ c.fails + duration.intervals gap
  unfinished : outcome = .unfinished → c.made = ticks + rounds
  limit : outcome = .exit .timeLimit → ∃ now earlier, c = .read now :: earlier ∧ last ≤ now
  blocked : outcome = .exit .criticalBlocked ↔ c.lastVerdict? = some .stop

section

variable {σ : Type} {start last woke : Instant} {gap duration : Millis} {c c₁ : History Happening}

/-- After a round that makes a tick the run is under way. -/
theorem Underway.goes_on (under : Underway start gap duration last woke c)
    (bounds : Bounds start gap duration last) {now : Instant}
    (rounded : Rounded gap last woke c (.ok now) c₁) (monotone : c₁.Monotone) :
    Underway start gap duration last now c₁ ∧ c₁.made = c.made + 1 ∧
      c₁.lastVerdict? = some .proceed := by
  cases rounded with
  | ticked paused sooner =>
    obtain ⟨since, earlier⟩ := monotone
    have pausing := under.pausing bounds paused earlier
    refine ⟨under.ticked bounds pausing since sooner .proceed, ?_, rfl⟩
    rw [← pausing.made]
    simp [History.made, Happening.verdict?]

/-- When a round ends the loop, all is known. -/
theorem Underway.ends (under : Underway start gap duration last woke c)
    (bounds : Bounds start gap duration last) (unstopped : c.lastVerdict? ≠ some .stop) {ended : Ended}
    (rounded : Rounded gap last woke c (.error ended) c₁) (monotone : c₁.Monotone) (ticks rounds : Nat) :
    Concluded gap duration last ticks rounds ended c₁ := by
  have few : ∀ {awake c₂}, Pausing gap last woke c awake c₂ →
      c₂.made ≤ c₂.fails + duration.intervals gap := by
    intro awake c₂ pausing
    have few := under.few
    have fails := pausing.fails
    rw [pausing.made]
    omega
  cases rounded with
  | halted paused =>
    have pausing := under.pausing bounds paused monotone
    refine ⟨pausing.inTime, few pausing, by simp, by simp, ?_⟩
    simpa [pausing.verdict] using unstopped
  | @late c₂ now paused late =>
    have pausing := under.pausing bounds paused monotone.tail
    have same : c₂.made ≤ c₂.fails + duration.intervals gap := few pausing
    refine ⟨pausing.inTime.read now, same, by simp, fun _ => ⟨now, c₂, rfl, late⟩, ?_⟩
    have verdict : History.lastVerdict? (.read now :: c₂) = c.lastVerdict? := pausing.verdict
    simpa [verdict] using unstopped
  | stopped paused sooner =>
    obtain ⟨since, earlier⟩ := monotone
    have next := under.ticked bounds (under.pausing bounds paused earlier) since sooner .stop
    exact ⟨next.inTime, next.few, by simp, by simp, by simp [History.lastVerdict?, Happening.verdict?]⟩
  | @failed _ _ fault paused sooner =>
    obtain ⟨since, earlier⟩ := monotone
    have next := under.ticked bounds (under.pausing bounds paused earlier) since sooner (.fail fault)
    exact ⟨next.inTime, next.few, by simp, by simp, by simp [History.lastVerdict?, Happening.verdict?]⟩

/-- The loop is under way up to the round that ends it. -/
theorem Underway.loop (under : Underway start gap duration last woke c)
    (bounds : Bounds start gap duration last) (unstopped : c.lastVerdict? ≠ some .stop) (h : Host σ) {s : σ}
    {rounds : Nat} (monotone : (h.chronicle.loop gap (some last) rounds woke (c, s)).2.1.Monotone) :
    Concluded gap duration last c.made rounds (h.chronicle.loop gap (some last) rounds woke (c, s)).1
      (h.chronicle.loop gap (some last) rounds woke (c, s)).2.1 := by
  induction rounds generalizing woke c s with
  | zero =>
    exact ⟨under.inTime, under.few, fun _ => rfl, by simp [Host.loop], by simpa [Host.loop] using unstopped⟩
  | succ rounds ih =>
    have rounded := h.rounded gap last woke c s
    unfold Host.loop at monotone ⊢
    cases round : h.chronicle.round gap (some last) woke (c, s) with
    | mk outcome state =>
      obtain ⟨c₁, t⟩ := state
      rw [round] at rounded monotone
      cases outcome with
      | error ended => exact under.ends bounds unstopped rounded monotone _ _
      | ok now =>
        have earlier := monotone.of_suffix (h.suffix_loop gap last rounds now c₁ t)
        obtain ⟨next, made, verdict⟩ := under.goes_on bounds rounded earlier
        have concluded := ih next (by simp [verdict]) monotone
        refine ⟨concluded.inTime, concluded.few, ?_, concluded.limit, concluded.blocked⟩
        intro ran
        have total := concluded.unfinished ran
        rw [made, Nat.add_assoc, Nat.add_comm 1] at total
        exact total

end

namespace Host

variable {σ : Type} (h : Host σ)

/-- A run up to a deadline is a loop, after two readings of the clock. -/
theorem run_chronicle_eq_loop (duration : Millis) (rounds : Nat) (s : σ) :
    ∃ woke t, h.chronicle.run (some duration) rounds ([], s) =
      h.chronicle.loop (h.start (h.read s).2).1 (some ((h.read s).1.after duration)) rounds woke
        ([.read woke, .read (h.read s).1], t) :=
  ⟨_, _, rfl⟩

/-- A run without a deadline never ends because the time is over. -/
theorem run_none_ne (rounds : Nat) (s : σ) : (h.run none rounds s).1 ≠ .exit .timeLimit := by
  have awake : ∀ now t, (h.wakeUp none now t).1 ≠ .error (.exit .timeLimit) := by
    intro now t
    simp only [wakeUp, Option.any_none, Bool.false_eq_true, if_false]
    split <;> simp
  have round : ∀ gap woke t, (h.round gap none woke t).1 ≠ .error (.exit .timeLimit) := by
    intro gap woke t
    unfold Host.round
    split
    · simp
    · exact awake _ _
  have loop : ∀ gap woke t, (h.loop gap none rounds woke t).1 ≠ .exit .timeLimit := by
    intro gap
    induction rounds with
    | zero => simp [Host.loop]
    | succ rounds ih =>
      intro woke t
      have one := round gap woke t
      unfold Host.loop
      split
      · exact ih _ _
      · rename_i ended u rounded
        rw [rounded] at one
        simpa using one
  exact loop _ _ _

/-- The thread serves a dispatcher, which is part of its state: what it tells the loop at the start is the
shortest interval of a task.  The clock, the sleeps and all else may be as they like. -/
structure Serves (h : Host σ) (get : σ → Dispatcher) : Prop where
  start : ∀ s, (h.start s).1 = (get s).scheduler.minInterval
  read : ∀ s, (get (h.read s).2).scheduler.minInterval = (get s).scheduler.minInterval

end Host

theorem Dispatcher.serves_hostWithin {σ : Type} (get : σ → Dispatcher) (set : σ → Dispatcher → σ)
    (sleep : Millis → σ → Nap σ) : (hostWithin get set sleep).Serves get := by
  constructor
  · intro s
    show (get s).start.scheduler.minInterval = (get s).scheduler.minInterval
    rw [scheduler_start]
    rfl
  · intro s
    rfl

/-! ## The shortest interval -/

/-- The span is the shortest interval of the tasks, or the longest span if there are none. -/
def Scheduler.Shortest (s : Scheduler) (gap : Millis) : Prop :=
  s.entries = [] ∧ gap = .longest ∨
    IsLeast { d | ∃ e ∈ s.entries, e.task.interval.toNat = d } gap.toNat

namespace Plan.Gauged

variable {s : Scheduler} (gauged : s.plan.Gauged)
include gauged

theorem mem : s.minInterval = .longest ∨ ∃ e ∈ s.entries, e.task.interval = s.minInterval := by
  have member := (Millis.foldl_shorter (s.plan.rows.map (·.interval)) .longest).1
  rw [← gauged] at member
  rcases List.mem_cons.mp member with longest | member
  · exact .inl longest
  · obtain ⟨r, listed, same⟩ := List.mem_map.mp member
    obtain ⟨e, registered, rfl⟩ := List.mem_map.mp listed
    exact .inr ⟨e, registered, same⟩

theorem le {e : Entry} (registered : e ∈ s.entries) :
    s.minInterval.count.toInt ≤ e.task.interval.count.toInt := by
  have least := (Millis.foldl_shorter (s.plan.rows.map (·.interval)) .longest).2
  rw [← gauged] at least
  refine least _ (List.mem_cons_of_mem _ ?_)
  exact List.mem_map.mpr ⟨e.row, List.mem_map_of_mem registered, rfl⟩

theorem positive : 0 < s.minInterval.count.toInt := by
  rcases gauged.mem with longest | ⟨e, _, same⟩
  · rw [longest]
    decide
  · have := e.task.one_le_interval
    rw [← same]
    omega

theorem shortest : s.Shortest s.minInterval := by
  have below : ∀ e ∈ s.entries, s.minInterval.toNat ≤ e.task.interval.toNat := by
    intro e registered
    have := gauged.le registered
    unfold Millis.toNat
    omega
  rcases gauged.mem with longest | ⟨e, registered, same⟩
  · cases entries : s.entries with
    | nil => exact .inl ⟨entries, longest⟩
    | cons e rest =>
      -- a task whose interval is the longest span
      have registered : e ∈ s.entries := by simp [entries]
      have bound := below e registered
      have most : e.task.interval.toNat ≤ Millis.longest.toNat := by
        have small := e.task.interval.count.toInt_lt
        have value : Millis.longest.toNat = 2 ^ 63 - 1 := by decide
        rw [value]
        unfold Millis.toNat
        omega
      rw [longest] at bound
      refine .inr ⟨⟨e, registered, ?_⟩, ?_⟩
      · rw [longest]
        omega
      · rintro d ⟨e, registered, rfl⟩
        exact below e registered
  · refine .inr ⟨⟨e, registered, by rw [same]⟩, ?_⟩
    rintro d ⟨e, registered, rfl⟩
    exact below e registered

end Plan.Gauged

/-! ## Runs for a time -/

/-- The deadline of a run is within the range of the clock.  From its epoch on nothing else is asked; on a
clock that stands before its epoch the nanoseconds of the span have to fit into a word as well. -/
structure Instant.Reachable (start : Instant) (duration : Millis) : Prop where
  low : -2 ^ 63 ≤ start.nanos.toInt + duration.count.toInt * 1000000
  high : start.nanos.toInt + duration.count.toInt * 1000000 < 2 ^ 63
  span : start.nanos.toInt < 0 → duration.count.toInt * 1000000 < 2 ^ 63

/-- A run for a time ends in time: the shortest interval, the deadline, the rounds that were given, what
the run came to, and its chronicle. -/
structure EndsInTime (duration gap : Millis) (last : Instant) (rounds : Nat) (outcome : Ended)
    (c : History Happening) : Prop where
  /-- Every tick comes before the deadline. -/
  early : ∀ now verdict, .ticked now verdict ∈ c → now < last
  /-- There are not more ticks than failed sleeps and intervals that end before the deadline. -/
  few : c.made ≤ c.fails + (duration.toNat ⌈/⌉ gap.toNat - 1)
  /-- The loop comes to an end, unless too many sleeps fail. -/
  ends : c.fails + (duration.toNat ⌈/⌉ gap.toNat - 1) < rounds → outcome ≠ .unfinished
  /-- When the time is over, the clock says so. -/
  limit : outcome = .exit .timeLimit → ∃ now earlier, c = .read now :: earlier ∧ last ≤ now
  /-- The loop ends for a critical task if and only if the last tick was stopped. -/
  blocked : outcome = .exit .criticalBlocked ↔ c.lastVerdict? = some .stop
  /-- If the clock is read before the deadline, and only a sleep moves it until it is read again, then it
  shows less than a millisecond after the deadline. -/
  overshoot : ∀ later final nap length now earlier,
    c = later ++ .read final :: nap :: .read now :: earlier → nap.nap? = some length → now < last →
      final.nanos.toInt ≤ now.nanos.toInt + length.count.toInt * 1000000 →
        final.nanos.toInt < last.nanos.toInt + 1000000

theorem Concluded.endsInTime {last : Instant} {gap duration : Millis} {rounds : Nat} {outcome : Ended}
    {c : History Happening} (concluded : Concluded gap duration last 0 rounds outcome c) :
    EndsInTime duration gap last rounds outcome c := by
  have few := concluded.few
  constructor
  · exact concluded.inTime.early
  · exact few
  · intro enough ran
    have made := concluded.unfinished ran
    simp only [Millis.intervals] at few
    omega
  · exact concluded.limit
  · exact concluded.blocked
  · rintro later final nap length now earlier rfl sleeps before moved
    have short :=
      concluded.inTime.short (later ++ [.read final]) nap length now earlier (by simp) sleeps before
    omega

namespace Host

variable {σ : Type} {h : Host σ} {get : σ → Dispatcher} {s : σ} {m : Moment} {allowed : Move → Prop}
  {scheduler : Scheduler} {workers rounds : Nat} {duration : Millis}

/-- A run for a time ends in time, whatever happened before, on every thread whose clock does not go back;
and a run for no time never ends because the time is over.  It is enough that the deadline is within the
range of the clock; `Instant.Reachable.span` asks for more only if the clock stands before its epoch, where
the span itself may not fit into a word although the deadline does. -/
theorem ends_in_time (serves : h.Serves get) (created : Scheduler.create workers = .ok scheduler)
    (reached : Moment.Reaches allowed (.initial scheduler) m) (same : get s = m.dispatcher)
    (reachable : (h.read s).1.Reachable duration)
    (monotone : (h.chronicle.run (some duration) rounds ([], s)).2.1.Monotone) :
    ∃ outcome c t, h.run (some duration) rounds s = (outcome, t) ∧
      h.chronicle.run (some duration) rounds ([], s) = (outcome, c, t) ∧
      m.dispatcher.scheduler.Shortest m.dispatcher.scheduler.minInterval ∧
      ((h.read s).1.after duration).nanos.toInt =
        (h.read s).1.nanos.toInt + duration.count.toInt * 1000000 ∧
      EndsInTime duration m.dispatcher.scheduler.minInterval ((h.read s).1.after duration) rounds
        outcome c ∧
      ∀ rounds, (h.run none rounds s).1 ≠ .exit .timeLimit := by
  have gauged := reached.gauged created
  have deadline := Instant.toInt_after_of_fits reachable.low reachable.high
  have gap : (h.start (h.read s).2).1 = m.dispatcher.scheduler.minInterval := by
    rw [serves.start, serves.read, same]
  have bounds : Bounds (h.read s).1 (h.start (h.read s).2).1 duration ((h.read s).1.after duration) := by
    refine ⟨gap ▸ gauged.positive, deadline, ?_⟩
    by_cases before : (h.read s).1.nanos.toInt < 0
    · exact reachable.span before
    · have high := reachable.high
      omega
  have plain := h.run_chronicle (some duration) rounds [] s
  obtain ⟨woke, t, run⟩ := h.run_chronicle_eq_loop duration rounds s
  rw [run] at monotone plain
  have begun := monotone.of_suffix (h.suffix_loop _ _ rounds woke _ t)
  have under : Underway (h.read s).1 (h.start (h.read s).2).1 duration ((h.read s).1.after duration) woke
      [.read woke, .read (h.read s).1] := by
    have blank : InTime ((h.read s).1.after duration) [] := ⟨by simp, by simp⟩
    refine ⟨(blank.read _).read woke, begun.1, Int.le_refl _, ?_, Nat.zero_le _⟩
    have order : (h.read s).1.nanos.toInt ≤ woke.nanos.toInt := begun.1
    simpa [History.made, History.fails, Happening.verdict?, Happening.isFailed] using order
  have concluded := under.loop bounds (by simp [History.lastVerdict?, Happening.verdict?]) h monotone
  exact ⟨_, _, _, plain, run, gauged.shortest, deadline, gap ▸ concluded.endsInTime,
    fun rounds => h.run_none_ne rounds s⟩

/-! ## A sample run

A task comes due every second, and the run lasts for two and a half.  The first sleep fails, so that there
are three ticks. -/

namespace Alarm

def moves : List Move := [.register (some Sample.brief) .epoch, .act (.setEnabled true)]

def moment : Moment := (Moment.lead (.initial Sample.scheduler) moves).2

/-- Something fails in the first sleep. -/
def script : Script := { maxSleeps := 8, cues := [⟨1, .raise "alarm"⟩] }

def session : Session := { dispatcher := moment.dispatcher }

end Alarm

/-- In the sample there are as many ticks as there can be. -/
theorem ends_in_time_sample :
    ∃ c t, (Session.host Alarm.script).chronicle.run (some ⟨2500⟩) 4 ([], Alarm.session) =
        (.exit .timeLimit, c, t) ∧ c.made = 3 ∧ c.fails = 1 ∧
      EndsInTime ⟨2500⟩ ⟨1000⟩ ⟨2500000000⟩ 4 (.exit .timeLimit) c := by
  have serves : (Session.host Alarm.script).Serves Session.dispatcher :=
    Dispatcher.serves_hostWithin _ _ _
  have passed : Moment.Passes (fun _ => True) (.initial Sample.scheduler)
      (Moment.lead (.initial Sample.scheduler) Alarm.moves).1 Alarm.moment :=
    Moment.passes_lead (fun _ _ => trivial) (by decide +kernel)
  have reachable : Instant.Reachable ((Session.host Alarm.script).read Alarm.session).1 ⟨2500⟩ := by
    constructor <;> decide +kernel
  have monotone : ((Session.host Alarm.script).chronicle.run (some ⟨2500⟩) 4
      ([], Alarm.session)).2.1.Monotone := by decide +kernel
  obtain ⟨outcome, c, t, _, run, _, _, inTime, _⟩ :=
    ends_in_time serves Sample.created passed.reaches rfl reachable monotone
  have ended : ((Session.host Alarm.script).chronicle.run (some ⟨2500⟩) 4 ([], Alarm.session)).1 =
      .exit .timeLimit := by decide +kernel
  have ticks :
      ((Session.host Alarm.script).chronicle.run (some ⟨2500⟩) 4 ([], Alarm.session)).2.1.made = 3 := by
    decide +kernel
  have fails :
      ((Session.host Alarm.script).chronicle.run (some ⟨2500⟩) 4 ([], Alarm.session)).2.1.fails = 1 := by
    decide +kernel
  have gap : Alarm.moment.dispatcher.scheduler.minInterval = ⟨1000⟩ := by decide +kernel
  have last : ((Session.host Alarm.script).read Alarm.session).1.after ⟨2500⟩ = ⟨2500000000⟩ := by
    decide +kernel
  rw [run] at ended ticks fails
  subst ended
  rw [gap, last] at inTime
  exact ⟨c, t, run, ticks, fails, inTime⟩

end Host

end Cadence

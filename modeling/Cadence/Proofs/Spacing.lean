import Cadence.Proofs.Deadline

/-!
How far the wake-ups of the loop are apart.

A run of the loop is a row of stretches, each from one wake-up to the next (`Host.stretches`).  In a
stretch the clock is read, a sleep is computed from the reading, and the thread sleeps.  On a clock that
does not go back nothing in the computation wraps (`Stretch.Exact`), the next wake-up is not sooner than an
interval after the last one, and only the part below a millisecond of the time that was spent comes on top
of the interval (`Stretch.Spaced`).
-/

namespace Cadence

/-- Nothing wraps when nanoseconds are cut off to whole milliseconds, or when one is added. -/
theorem Millis.truncate_exact (ns : Int64) :
    (truncate ns).count.toInt = ns.toInt.tdiv 1000000 ∧
    (truncate ns).nanos.toInt = (truncate ns).count.toInt * 1000000 ∧
    ((truncate ns).count + 1).toInt = (truncate ns).count.toInt + 1 := by
  have low := ns.le_toInt
  have high := ns.toInt_lt
  have cases := truncate_cases ns
  have million : (1000000 : Int64).toInt = 1000000 := by decide
  have one : (1 : Int64).toInt = 1 := by decide
  refine ⟨?_, ?_, ?_⟩
  · rcases cases with ⟨forward, value⟩ | ⟨back, value⟩
    · rw [value, Int.tdiv_eq_ediv_of_nonneg forward]
    · rw [value, ← Int.tdiv_eq_ediv_of_nonneg (by omega), Int.neg_tdiv, Int.neg_neg]
  · rw [nanos, Int64.toInt_mul, million]
    exact Int.bmod_eq_of_le (by omega) (by omega)
  · rw [Int64.toInt_add, one]
    exact Int.bmod_eq_of_le (by omega) (by omega)

/-- The instant that the clock shows, if it is read. -/
def Happening.shown? : Happening → Option Instant
  | read now => some now
  | slept _ | failed _ | halted _ | ticked _ _ => none

/-- What the clock has shown, the latest first. -/
def History.shown (c : History Happening) : List Instant := c.filterMap (·.shown?)

/-- On a clock that does not go back, what it can show next only grows. -/
theorem History.Monotone.lowest_le {c later : History Happening} (monotone : later.Monotone)
    (suffix : c <:+ later) : c.lowest ≤ later.lowest := by
  induction later with
  | nil => rw [List.suffix_nil.mp suffix]
  | cons y later ih =>
    rcases List.suffix_cons_iff.mp suffix with rfl | shorter
    · exact Int.le_refl _
    · have earlier := ih monotone.tail shorter
      cases y with
      | read now => exact earlier.trans monotone.1
      | slept length =>
        simp only [lowest]
        omega
      | failed length => exact earlier
      | halted length => exact earlier
      | ticked now verdict => exact earlier

/-- What the loop does from a wake-up to the next one. -/
structure Stretch where
  /-- The wake-up that it begins with. -/
  woke : Instant
  /-- What the clock shows when the sleep is computed. -/
  asked : Instant
  /-- What the clock shows when the time up to the deadline is computed, if there is a deadline. -/
  checked : Option Instant
  /-- The sleep, if there is something to sleep. -/
  nap : Option Happening
  /-- The next wake-up, unless the thread was halted. -/
  next : Option Instant
  /-- What came of the tick, unless the deadline has come. -/
  verdict : Option Verdict

namespace Stretch

variable (x : Stretch) (gap : Millis) (last : Option Instant)

/-- The nanoseconds that were spent when the sleep is computed. -/
def spent : Int := x.asked.nanos.toInt - x.woke.nanos.toInt

/-- The sleep that is computed. -/
def length : Millis :=
  Host.sleepLength gap (x.asked.since x.woke) (Option.map₂ Instant.since last x.checked)

/-- What is left of the interval. -/
def rest : Millis := Host.sleepLength gap (x.asked.since x.woke) none

/-- The nanoseconds of the sleep. -/
def asleep : Int := (x.nap.bind Happening.nap?).elim 0 fun length => length.count.toInt * 1000000

/-- The wake-up at the end of the stretch, and the tick, the latest first. -/
def ending : History Happening :=
  x.next.elim [] fun now => (x.verdict.map (Happening.ticked now)).toList ++ [.read now]

/-- The chronicle with the readings of the clock before the sleep. -/
def readings (c : History Happening) : History Happening :=
  (x.checked.map Happening.read).toList ++ .read x.asked :: c

/-- The chronicle with all that happens in the stretch. -/
def record (c : History Happening) : History Happening :=
  x.ending ++ (x.nap.toList ++ x.readings c)

/-- The loop does as it should: the clock is read, and the thread sleeps as long as was computed, if that is
longer than nothing. -/
structure Lawful : Prop where
  checked : x.checked.isSome = last.isSome
  nap : x.nap = none ∧ ¬ 0 < (x.length gap last).count ∨
    ∃ nap, x.nap = some nap ∧ nap.nap? = some (x.length gap last) ∧ 0 < (x.length gap last).count
  next : x.next = none ↔ ∃ length, x.nap = some (.halted length)

/-- The deadline does not leave room for the rest of the interval. -/
def Shortened : Prop :=
  0 < (x.rest gap).count.toInt ∧ (x.length gap last).count.toInt < (x.rest gap).count.toInt

/-- The sleep neither fails nor is cut short by the deadline. -/
structure Undisturbed : Prop where
  sound : ∀ length, x.nap ≠ some (.failed length)
  full : ¬ x.Shortened gap last

/-- Nothing wraps when the sleep is computed. -/
structure Exact : Prop where
  elapsed : (x.asked.since x.woke).toInt = x.spent
  whole : (Millis.truncate (x.asked.since x.woke)).count.toInt = x.spent / 1000000
  rest : (gap.less (.truncate (x.asked.since x.woke))).count.toInt =
    gap.count.toInt - x.spent / 1000000
  /-- The time up to the deadline, and the steps in which it is rounded up. -/
  remaining : ∀ l now, last = some l → x.checked = some now →
    (l.since now).toInt = l.nanos.toInt - now.nanos.toInt ∧
    (Millis.truncate (l.since now)).count.toInt =
      (l.nanos.toInt - now.nanos.toInt).tdiv 1000000 ∧
    (Millis.truncate (l.since now)).nanos.toInt =
      (Millis.truncate (l.since now)).count.toInt * 1000000 ∧
    ((Millis.truncate (l.since now)).count + 1).toInt =
      (Millis.truncate (l.since now)).count.toInt + 1 ∧
    (Millis.ceil (l.since now)).count.toInt = -(-(l.nanos.toInt - now.nanos.toInt) / 1000000)

/-- How far the wake-up at the end of a stretch is from the one at its beginning. -/
structure Spaced : Prop where
  exact : x.Exact gap last
  /-- Wake-ups are an interval apart at least. -/
  apart : ∀ next, x.next = some next → x.Undisturbed gap last →
    gap.count.toInt * 1000000 ≤ next.nanos.toInt - x.woke.nanos.toInt
  /-- If less than an interval was spent, and then only the sleep moves the clock, they are less than a
  millisecond further apart, and an interval exactly if whole milliseconds were spent. -/
  close : ∀ next, x.next = some next → x.Undisturbed gap last →
    next.nanos.toInt = x.asked.nanos.toInt + x.asleep → x.spent < gap.count.toInt * 1000000 →
      next.nanos.toInt - x.woke.nanos.toInt < gap.count.toInt * 1000000 + 1000000 ∧
      (next.nanos.toInt - x.woke.nanos.toInt = gap.count.toInt * 1000000 ↔ 1000000 ∣ x.spent)
  /-- If an interval was spent or more, nothing is slept. -/
  awake : gap.count.toInt * 1000000 ≤ x.spent → x.nap = none ∧
    ∀ next, x.next = some next → next.nanos.toInt = x.asked.nanos.toInt + x.asleep →
      next.nanos.toInt = x.woke.nanos.toInt + x.spent

/-! ## One stretch -/

variable {x : Stretch} {gap : Millis} {last : Option Instant} {c : History Happening}

/-- A wake-up is the last that the clock has shown. -/
theorem lowest_record {now : Instant} (wakes : x.next = some now) :
    (x.record c).lowest = now.nanos.toInt := by
  simp only [record, ending, wakes, Option.elim_some]
  cases x.verdict <;> rfl

theorem suffix_readings (x : Stretch) (c : History Happening) : x.readings c <:+ x.record c :=
  (List.suffix_append _ _).trans (List.suffix_append _ _)

theorem suffix_record (x : Stretch) (c : History Happening) : c <:+ x.record c := by
  have asking : c <:+ .read x.asked :: c := List.suffix_cons _ _
  have reading : .read x.asked :: c <:+ x.readings c := List.suffix_append _ _
  exact (asking.trans reading).trans (x.suffix_readings c)

theorem suffix_foldl (stretches : List Stretch) (c : History Happening) :
    c <:+ stretches.foldl (fun c x => x.record c) c := by
  induction stretches generalizing c with
  | nil => exact List.suffix_rfl
  | cons x later ih => exact (x.suffix_record c).trans (ih (x.record c))

theorem lowest_readings (readings : (x.readings c).Monotone) :
    c.lowest ≤ x.asked.nanos.toInt ∧ x.asked.nanos.toInt ≤ (x.readings c).lowest ∧
    ∀ now, x.checked = some now → (x.readings c).lowest = now.nanos.toInt := by
  unfold Stretch.readings at readings ⊢
  cases checked : x.checked with
  | none =>
    rw [checked] at readings
    exact ⟨readings.1, Int.le_refl _, by simp⟩
  | some now =>
    rw [checked] at readings
    obtain ⟨later, first, _⟩ := readings
    refine ⟨first, later, ?_⟩
    rintro _ ⟨⟩
    rfl

/-- The sleep takes its time, unless it fails. -/
theorem Lawful.lowest_nap (lawful : x.Lawful gap last) {next : Instant} (wakes : x.next = some next)
    (sound : ∀ length, x.nap ≠ some (.failed length)) :
    History.lowest (x.nap.toList ++ x.readings c) = (x.readings c).lowest + x.asleep := by
  rcases lawful.nap with ⟨none, _⟩ | ⟨nap, some, length, positive⟩
  · simp [none, asleep]
  · have value := Millis.toInt_count (Int64.lt_iff_toInt_lt.mp positive).le
    cases nap with
    | slept d =>
      obtain rfl : d = x.length gap last := Option.some.inj length
      simp only [some, asleep, Option.toList_some, List.singleton_append, History.lowest,
        Option.bind_some, Happening.nap?, Option.elim_some]
      rw [value]
    | failed d => exact absurd some (sound d)
    | halted d =>
      have halted : x.next = none := lawful.next.mpr ⟨d, some⟩
      rw [halted] at wakes
      cases wakes
    | read now => cases length
    | ticked now verdict => cases length

/-- The thread does not wake up before its sleep is over. -/
theorem Lawful.wakes_after (lawful : x.Lawful gap last) (monotone : (x.record c).Monotone)
    {next : Instant} (wakes : x.next = some next) (sound : ∀ length, x.nap ≠ some (.failed length)) :
    x.asked.nanos.toInt + x.asleep ≤ next.nanos.toInt := by
  have reading : Happening.read next :: (x.nap.toList ++ x.readings c) <:+ x.record c := by
    simp only [record, ending, wakes, Option.elim_some, List.append_assoc]
    exact List.suffix_append _ _
  have later := (monotone.of_suffix reading).1
  have earlier := (lowest_readings (monotone.of_suffix (x.suffix_readings c))).2.1
  rw [lawful.lowest_nap wakes sound] at later
  omega

/-- On a clock that begins at its epoch and does not go back, nothing wraps. -/
theorem exact_of_order (forward : 0 ≤ gap.count.toInt) (begun : 0 ≤ x.woke.nanos.toInt)
    (spends : x.woke.nanos.toInt ≤ x.asked.nanos.toInt)
    (reads : ∀ now, x.checked = some now → x.asked.nanos.toInt ≤ now.nanos.toInt)
    (deadline : ∀ l, last = some l → 0 ≤ l.nanos.toInt) : x.Exact gap last := by
  have latest := x.asked.nanos.toInt_lt
  have longest := gap.count.toInt_lt
  have elapsed : (x.asked.since x.woke).toInt = x.spent := Instant.toInt_since (by omega) (by omega)
  have whole : (Millis.truncate (x.asked.since x.woke)).count.toInt = x.spent / 1000000 := by
    rw [← elapsed]
    apply Millis.toInt_truncate
    rw [elapsed, spent]
    omega
  refine ⟨elapsed, whole, ?_, ?_⟩
  · rw [Millis.less, Int64.toInt_sub, whole]
    unfold spent
    exact Int.bmod_eq_of_le (by omega) (by omega)
  · intro l now limited shown
    have ends := deadline l limited
    have reading := reads now shown
    have l_lt := l.nanos.toInt_lt
    have now_lt := now.nanos.toInt_lt
    have left : (l.since now).toInt = l.nanos.toInt - now.nanos.toInt :=
      Instant.toInt_since (by omega) (by omega)
    have exact := Millis.truncate_exact (l.since now)
    have ceil := Millis.toInt_ceil (l.since now)
    rw [left] at exact ceil
    exact ⟨left, exact.1, exact.2.1, exact.2.2, ceil⟩

/-- The deadline does not make a sleep longer. -/
theorem length_le_rest (x : Stretch) (gap : Millis) (last : Option Instant) :
    (x.length gap last).count.toInt ≤ (x.rest gap).count.toInt := by
  unfold length rest
  cases Option.map₂ Instant.since last x.checked with
  | none => exact Int.le_refl _
  | some remaining =>
    simp only [Host.sleepLength, Millis.toInt_shorter]
    omega

theorem Lawful.nap_of_nonpos (lawful : x.Lawful gap last)
    (spent : (x.length gap last).count.toInt ≤ 0) : x.nap = none := by
  rcases lawful.nap with ⟨none, _⟩ | ⟨_, _, _, positive⟩
  · exact none
  · have zero : (0 : Int64).toInt = 0 := by decide
    rw [Int64.lt_iff_toInt_lt, zero] at positive
    omega

/-- Undisturbed, the thread sleeps for the rest of the interval. -/
theorem Lawful.asleep_eq (lawful : x.Lawful gap last) (undisturbed : x.Undisturbed gap last) :
    x.asleep = max 0 (x.rest gap).count.toInt * 1000000 := by
  have full := undisturbed.full
  have below := x.length_le_rest gap last
  unfold Shortened at full
  have zero : (0 : Int64).toInt = 0 := by decide
  rcases lawful.nap with ⟨none, spent⟩ | ⟨nap, some, length, positive⟩
  · rw [Int64.lt_iff_toInt_lt, zero] at spent
    simp only [asleep, none, Option.bind_none, Option.elim_none]
    omega
  · rw [Int64.lt_iff_toInt_lt, zero] at positive
    simp only [asleep, some, Option.bind_some, length, Option.elim_some]
    omega

/-- On a clock that does not go back, the wake-ups at both ends are as far apart as they should be. -/
theorem Lawful.spaced (lawful : x.Lawful gap last) (forward : 0 ≤ gap.count.toInt)
    (deadline : ∀ l, last = some l → 0 ≤ l.nanos.toInt) (begun : 0 ≤ x.woke.nanos.toInt)
    (follows : x.woke.nanos.toInt ≤ c.lowest) (monotone : (x.record c).Monotone) :
    x.Spaced gap last := by
  obtain ⟨first, later, reading⟩ := lowest_readings (monotone.of_suffix (x.suffix_readings c))
  have spends : x.woke.nanos.toInt ≤ x.asked.nanos.toInt := follows.trans first
  have exact : x.Exact gap last := by
    refine exact_of_order forward begun spends ?_ deadline
    intro now checked
    rw [← reading now checked]
    exact later
  have rest : (x.rest gap).count.toInt = gap.count.toInt - x.spent / 1000000 := exact.rest
  refine ⟨exact, ?_, ?_, ?_⟩
  · intro next wakes undisturbed
    have after := lawful.wakes_after monotone wakes undisturbed.sound
    rw [lawful.asleep_eq undisturbed, rest] at after
    unfold spent at after
    omega
  · intro next wakes undisturbed still less
    rw [lawful.asleep_eq undisturbed, rest] at still
    unfold spent at still less ⊢
    omega
  · intro enough
    have none : x.nap = none := by
      apply lawful.nap_of_nonpos
      have below := x.length_le_rest gap last
      omega
    refine ⟨none, ?_⟩
    intro next _ still
    have nothing : x.asleep = 0 := by simp [asleep, none]
    unfold spent
    omega

end Stretch

/-! ## Rows of stretches -/

/-- The stretches follow each other, the earliest first: each begins with the wake-up at which the one
before it ends. -/
inductive Linked : Instant → List Stretch → Prop
  | none (woke : Instant) : Linked woke []
  | halted {x : Stretch} (halted : x.next = .none) : Linked x.woke [x]
  | some {x : Stretch} {next : Instant} {later : List Stretch} (wakes : x.next = .some next)
    (linked : Linked next later) : Linked x.woke (x :: later)

/-- In a row of lawful stretches, every wake-up is as far from the one before as it should be. -/
theorem Linked.spaced {woke : Instant} {stretches : List Stretch} (linked : Linked woke stretches)
    {gap : Millis} {last : Option Instant} (lawful : ∀ x ∈ stretches, x.Lawful gap last)
    (forward : 0 ≤ gap.count.toInt) (deadline : ∀ l, last = .some l → 0 ≤ l.nanos.toInt)
    (begun : 0 ≤ woke.nanos.toInt) {c : History Happening} (follows : woke.nanos.toInt ≤ c.lowest)
    (monotone : (stretches.foldl (fun c x => x.record c) c).Monotone) :
    ∀ x ∈ stretches, x.Spaced gap last := by
  induction linked generalizing c with
  | none woke => simp
  | @halted x halted =>
    rintro y (_ | ⟨_, ⟨⟩⟩)
    exact (lawful x List.mem_cons_self).spaced forward deadline begun follows monotone
  | @some x next later wakes linked ih =>
    have first : (x.record c).Monotone := monotone.of_suffix (Stretch.suffix_foldl later (x.record c))
    have shown := Stretch.lowest_record (c := c) wakes
    have passes := first.lowest_le (x.suffix_record c)
    rintro y (_ | ⟨_, member⟩)
    · exact (lawful x List.mem_cons_self).spaced forward deadline begun follows first
    · have lawful' : ∀ y ∈ later, y.Lawful gap last :=
        fun y member => lawful y (List.mem_cons_of_mem _ member)
      exact ih lawful' (by omega) (Int.le_of_eq shown.symm) monotone y member

namespace Host

variable {σ : Type} (h : Host σ) (gap : Millis) (last : Option Instant)

/-- Before a sleep the clock is read, and once more if there is a deadline. -/
theorem nextSleep_readings (woke : Instant) (c : History Happening) (s : σ) :
    ∃ asked checked t, checked.isSome = last.isSome ∧
      h.chronicle.nextSleep gap last woke (c, s) =
        (sleepLength gap (asked.since woke) (Option.map₂ Instant.since last checked),
          (checked.map Happening.read).toList ++ .read asked :: c, t) := by
  cases last with
  | none => exact ⟨(h.read s).1, none, (h.read s).2, rfl, rfl⟩
  | some l => exact ⟨(h.read s).1, some (h.read (h.read s).2).1, (h.read (h.read s).2).2, rfl, rfl⟩

/-- A pause is the first part of a stretch: the clock is read, and the thread sleeps if there is something to
sleep. -/
theorem pause_sleeps (woke : Instant) (c : History Happening) (s : σ) :
    ∃ asked checked nap awake t,
      h.chronicle.pause gap last woke (c, s) =
        (awake, Option.toList nap ++ ((Option.map Happening.read checked).toList ++ .read asked :: c), t) ∧
      ∀ next verdict, (next = none ↔ awake = false) →
        Stretch.Lawful ⟨woke, asked, checked, nap, next, verdict⟩ gap last := by
  obtain ⟨asked, checked, t, as, next⟩ := h.nextSleep_readings gap last woke c s
  simp only [pause, next, sleepIfPositive]
  by_cases positive :
    0 < (sleepLength gap (asked.since woke) (Option.map₂ Instant.since last checked)).count
  · simp only [if_pos positive, chronicle]
    cases h.sleep (sleepLength gap (asked.since woke) (Option.map₂ Instant.since last checked)) t with
    | slept u =>
      refine ⟨asked, checked, some (.slept _), true, u, rfl, fun next verdict awake => ?_⟩
      exact ⟨as, .inr ⟨_, rfl, rfl, positive⟩, by simp [awake]⟩
    | failed what u =>
      refine ⟨asked, checked, some (.failed _), true, _, rfl, fun next verdict awake => ?_⟩
      exact ⟨as, .inr ⟨_, rfl, rfl, positive⟩, by simp [awake]⟩
    | halted u =>
      refine ⟨asked, checked, some (.halted _), false, u, rfl, fun next verdict awake => ?_⟩
      exact ⟨as, .inr ⟨_, rfl, rfl, positive⟩, by simp [awake]⟩
  · simp only [if_neg positive]
    refine ⟨asked, checked, none, true, t, rfl, fun next verdict awake => ?_⟩
    exact ⟨as, .inl ⟨rfl, positive⟩, by simp [awake]⟩

/-- At a wake-up there is a tick, or none if the deadline has come; the loop goes on from this wake-up. -/
theorem wakeUp_ticks (now : Instant) (c : History Happening) (s : σ) :
    ∃ verdict, (h.chronicle.wakeUp last now (c, s)).2.1 =
        (Option.map (Happening.ticked now) verdict).toList ++ c ∧
      ∀ now', (h.chronicle.wakeUp last now (c, s)).1 = .ok now' → now' = now := by
  obtain ⟨verdict, t, ticked⟩ : ∃ verdict t, h.chronicle.tick now (c, s) =
      (verdict, .ticked now verdict :: c, t) := ⟨_, _, rfl⟩
  unfold wakeUp
  rw [ticked]
  split
  · exact ⟨none, rfl, by simp⟩
  · refine ⟨some verdict, ?_⟩
    cases verdict with
    | proceed => exact ⟨rfl, fun _ same => (Except.ok.inj same).symm⟩
    | stop => exact ⟨rfl, by simp⟩
    | fail fault => exact ⟨rfl, by simp⟩

/-- A round of the loop is a stretch. -/
theorem stretch (woke : Instant) (c : History Happening) (s : σ) : ∃ x : Stretch, x.woke = woke ∧
    x.Lawful gap last ∧ (h.chronicle.round gap last woke (c, s)).2.1 = x.record c ∧
    ∀ now, (h.chronicle.round gap last woke (c, s)).1 = .ok now → x.next = some now := by
  obtain ⟨asked, checked, nap, awake, t, paused, lawful⟩ := h.pause_sleeps gap last woke c s
  unfold round
  rw [paused]
  cases awake with
  | false =>
    refine ⟨⟨woke, asked, checked, nap, none, none⟩, rfl, lawful _ _ (by simp), rfl, ?_⟩
    rintro now ⟨⟩
  | true =>
    obtain ⟨now, c₁, u, reading, grown⟩ : ∃ now c₁ u, h.chronicle.read
        (Option.toList nap ++ ((Option.map Happening.read checked).toList ++ .read asked :: c), t) =
          (now, c₁, u) ∧ c₁ = .read now ::
        (Option.toList nap ++ ((Option.map Happening.read checked).toList ++ .read asked :: c)) :=
      ⟨_, _, _, rfl, rfl⟩
    obtain ⟨verdict, ticks, wakes⟩ := h.wakeUp_ticks last now c₁ u
    refine ⟨⟨woke, asked, checked, nap, some now, verdict⟩, rfl, lawful _ _ (by simp), ?_, ?_⟩
    · simp only [reading, ticks]
      simp only [grown, Stretch.record, Stretch.ending, Stretch.readings, Option.elim_some,
        List.append_assoc, List.singleton_append]
    · intro now' goesOn
      simp only [reading] at goesOn
      rw [wakes now' goesOn]

/-- A loop is a row of stretches. -/
theorem stretches (rounds : Nat) (woke : Instant) (c : History Happening) (s : σ) :
    ∃ stretches, Linked woke stretches ∧ (∀ x ∈ stretches, x.Lawful gap last) ∧
      (h.chronicle.loop gap last rounds woke (c, s)).2.1 =
        stretches.foldl (fun c x => x.record c) c := by
  induction rounds generalizing woke c s with
  | zero => exact ⟨[], .none woke, by simp, rfl⟩
  | succ rounds ih =>
    obtain ⟨x, rfl, lawful, recorded, wakes⟩ := h.stretch gap last woke c s
    unfold Host.loop
    cases round : h.chronicle.round gap last x.woke (c, s) with
    | mk outcome state =>
      obtain ⟨c₁, t⟩ := state
      rw [round] at recorded wakes
      obtain rfl : c₁ = x.record c := recorded
      cases outcome with
      | error ended =>
        refine ⟨[x], ?_, by simpa using lawful, rfl⟩
        cases next : x.next with
        | none => exact .halted next
        | some now => exact .some next (.none now)
      | ok now =>
        obtain ⟨later, linked, lawful', rest⟩ := ih now (x.record c) t
        refine ⟨x :: later, .some (wakes now rfl) linked, ?_, rest⟩
        rintro y (_ | ⟨_, member⟩)
        · exact lawful
        · exact lawful' y member

/-- A run is a loop, after the readings from which the deadline and the first sleep are measured. -/
theorem run_chronicle_eq (duration : Option Millis) (rounds : Nat) (s : σ) :
    ∃ gap woke t, h.chronicle.run duration rounds ([], s) =
        h.chronicle.loop gap (h.deadline duration s).1 rounds woke
          (.read woke :: (duration.map fun _ => .read (h.read s).1).toList, t) ∧
      gap = (h.start (h.deadline duration s).2).1 := by
  cases duration with
  | none => exact ⟨_, _, _, rfl, rfl⟩
  | some d => exact ⟨_, _, _, rfl, rfl⟩

variable {h} {get : σ → Dispatcher} {s : σ} {m : Moment} {allowed : Move → Prop} {scheduler : Scheduler}
  {workers rounds : Nat} {duration : Option Millis}

/-- Whatever happened before, a run of the loop is a row of stretches, from the reading before its first
sleep on; and on every clock that does not go back and does not show a negative instant, the wake-ups at
both ends of each stretch are as far apart as they should be. -/
theorem wakes_apart (serves : h.Serves get) (created : Scheduler.create workers = .ok scheduler)
    (reached : Moment.Reaches allowed (.initial scheduler) m) (same : get s = m.dispatcher)
    (ends : ∀ l, (h.deadline duration s).1 = some l → 0 ≤ l.nanos.toInt)
    (monotone : (h.chronicle.run duration rounds ([], s)).2.1.Monotone)
    (forward : ∀ now ∈ (h.chronicle.run duration rounds ([], s)).2.1.shown, 0 ≤ now.nanos.toInt) :
    ∃ outcome t woke stretches, h.run duration rounds s = (outcome, t) ∧
      h.chronicle.run duration rounds ([], s) =
        (outcome, stretches.foldl (fun c x => x.record c)
          (.read woke :: (duration.map fun _ => .read (h.read s).1).toList), t) ∧
      Linked woke stretches ∧
      ∀ x ∈ stretches, x.Lawful m.dispatcher.scheduler.minInterval (h.deadline duration s).1 ∧
        x.Spaced m.dispatcher.scheduler.minInterval (h.deadline duration s).1 := by
  have gauged := reached.gauged created
  obtain ⟨gap, woke, t, run, gap_eq⟩ := h.run_chronicle_eq duration rounds s
  have shortest : gap = m.dispatcher.scheduler.minInterval := by
    rw [gap_eq, serves.start, ← same]
    cases duration with
    | none => rfl
    | some d => exact serves.read s
  obtain ⟨stretches, linked, lawful, recorded⟩ := h.stretches gap (h.deadline duration s).1 rounds woke
    (.read woke :: (duration.map fun _ => .read (h.read s).1).toList) t
  have plain := h.run_chronicle duration rounds [] s
  rw [run] at plain monotone forward
  rw [recorded] at monotone forward
  have begun : 0 ≤ woke.nanos.toInt := by
    apply forward
    refine List.mem_filterMap.mpr ⟨.read woke, ?_, rfl⟩
    exact (Stretch.suffix_foldl stretches _).mem List.mem_cons_self
  have spaced := linked.spaced lawful (shortest ▸ gauged.positive.le) ends begun (Int.le_refl _) monotone
  subst shortest
  refine ⟨_, _, woke, stretches, plain, ?_, linked, fun x listed => ⟨lawful x listed, spaced x listed⟩⟩
  rw [run, ← recorded]
  rfl

/-! ## A sample run

A task comes due every two milliseconds, and its body works for half a one.  The second wake-up is two and a
half milliseconds after the first, and the deadline cuts the third sleep short. -/

namespace Ticker

def task : Task :=
  { Sample.brief with interval := ⟨2⟩, body := { work := 500000 }, interval_pos := by decide }

def moves : List Move := [.register (some task) .epoch, .act (.setEnabled true)]

def moment : Moment := (Moment.lead (.initial Sample.scheduler) moves).2

/-- The chronicle of a run for six milliseconds. -/
def chronicle : History Happening :=
  (Dispatcher.host.chronicle.run (some ⟨6⟩) 3 ([], moment.dispatcher)).2.1

end Ticker

/-- In the sample the wake-ups are spaced as they should be. -/
theorem wakes_apart_sample :
    Ticker.chronicle.shown.map (·.nanos.toInt) =
      [6000000, 5000000, 5000000, 4500000, 2500000, 2500000, 2000000, 0, 0, 0, 0] ∧
    ∃ woke stretches opening, Ticker.chronicle = stretches.foldl (fun c x => x.record c) opening ∧
      Linked woke stretches ∧ ∀ x ∈ stretches, x.Spaced ⟨2⟩ (some ⟨6000000⟩) := by
  have passed : Moment.Passes (fun _ => True) (.initial Sample.scheduler)
      (Moment.lead (.initial Sample.scheduler) Ticker.moves).1 Ticker.moment :=
    Moment.passes_lead (fun _ _ => trivial) (by decide +kernel)
  have serves : Dispatcher.host.Serves id := Dispatcher.serves_hostWithin _ _ _
  have deadline : (Dispatcher.host.deadline (some ⟨6⟩) Ticker.moment.dispatcher).1 = some ⟨6000000⟩ := by
    decide +kernel
  have gap : Ticker.moment.dispatcher.scheduler.minInterval = ⟨2⟩ := by decide +kernel
  have monotone : Ticker.chronicle.Monotone := by decide +kernel
  have forward : ∀ now ∈ Ticker.chronicle.shown, 0 ≤ now.nanos.toInt := by decide +kernel
  obtain ⟨outcome, t, woke, stretches, _, run, linked, spaced⟩ := wakes_apart serves Sample.created
    passed.reaches rfl (by rintro l ⟨⟩; decide +kernel) monotone forward
  rw [deadline, gap] at spaced
  refine ⟨by decide +kernel, woke, stretches, _, congrArg (·.2.1) run, linked, ?_⟩
  exact fun x listed => (spaced x listed).2

end Host

end Cadence

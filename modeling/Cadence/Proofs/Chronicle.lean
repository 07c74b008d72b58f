import Cadence.Proofs.Diary
import Cadence.Proofs.Execution

/-!
A chronicle of what the dispatch loop asks of its thread.

`Host.chronicle` is the same thread, which also notes every reading of the clock, every sleep and every
tick.  What a round of the loop adds to the chronicle is said once, for every thread: `Paused` and
`Rounded` have a constructor for each way through a pause and a round (`Host.rounded`).
-/

namespace Cadence

/-- Something that the loop asks of its thread, and what came of it. -/
inductive Happening
  /-- The clock is read. -/
  | read (now : Instant)
  | slept (length : Millis)
  /-- A sleep fails. -/
  | failed (length : Millis)
  /-- In a sleep the thread is halted. -/
  | halted (length : Millis)
  | ticked (now : Instant) (verdict : Verdict)
  deriving DecidableEq, Repr

namespace Happening

/-- The length of the sleep, if it is one, however it came out. -/
def nap? : Happening → Option Millis
  | slept length | failed length | halted length => some length
  | read _ | ticked _ _ => none

/-- The verdict of the tick, if it is one. -/
def verdict? : Happening → Option Verdict
  | ticked _ verdict => some verdict
  | read _ | slept _ | failed _ | halted _ => none

def isFailed : Happening → Bool
  | failed _ => true
  | read _ | slept _ | halted _ | ticked _ _ => false

end Happening

namespace History

variable (c : History Happening)

/-- How many ticks were made. -/
def made : Nat := c.countP (·.verdict?.isSome)

/-- How many sleeps failed. -/
def fails : Nat := c.countP (·.isFailed)

/-- The verdict of the last tick. -/
def lastVerdict? : Option Verdict := c.findSome? (·.verdict?)

end History

namespace Host

variable {σ : Type}

/-- The same thread, with a chronicle. -/
def chronicle (h : Host σ) : Host (History Happening × σ) where
  start s := (h.start s.2).map id (Prod.mk s.1)
  read s := let (now, t) := h.read s.2; (now, .read now :: s.1, t)
  sleep length s :=
    match h.sleep length s.2 with
    | .slept t => .slept (.slept length :: s.1, t)
    | .failed what t => .failed what (.failed length :: s.1, t)
    | .halted t => .halted (.halted length :: s.1, t)
  note line s := (s.1, h.note line s.2)
  tick now s := let (verdict, t) := h.tick now s.2; (verdict, .ticked now verdict :: s.1, t)

theorem mirrors_chronicle (h : Host σ) : h.chronicle.Mirrors h Prod.snd := by
  constructor
  · intro s
    rfl
  · intro s
    rfl
  · intro length s
    simp only [chronicle]
    cases h.sleep length s.2 <;> rfl
  · intro line s
    rfl
  · intro now s
    rfl

/-- The chronicle makes no difference to the loop. -/
theorem run_chronicle (h : Host σ) (duration : Option Millis) (rounds : Nat) (c : History Happening)
    (s : σ) :
    h.run duration rounds s = (h.chronicle.run duration rounds (c, s)).map id Prod.snd :=
  h.mirrors_chronicle.run duration rounds (c, s)

end Host

/-- The ways through a pause, in a run up to a deadline: whether the thread is to go on, and the chronicle
afterwards.  The clock is read twice, and there is a sleep if its length is positive. -/
inductive Paused (gap : Millis) (last woke : Instant) (c : History Happening) :
    Bool → History Happening → Prop
  /-- There is nothing to sleep. -/
  | busy {a b : Instant}
    (spent : ¬ 0 < (Host.sleepLength gap (a.since woke) (some (last.since b))).count) :
    Paused gap last woke c true (.read b :: .read a :: c)
  | slept {a b : Instant} {length : Millis} (positive : 0 < length.count)
    (due : length = Host.sleepLength gap (a.since woke) (some (last.since b))) :
    Paused gap last woke c true (.slept length :: .read b :: .read a :: c)
  | failed {a b : Instant} {length : Millis} (positive : 0 < length.count)
    (due : length = Host.sleepLength gap (a.since woke) (some (last.since b))) :
    Paused gap last woke c true (.failed length :: .read b :: .read a :: c)
  | halted {a b : Instant} {length : Millis} (positive : 0 < length.count)
    (due : length = Host.sleepLength gap (a.since woke) (some (last.since b))) :
    Paused gap last woke c false (.halted length :: .read b :: .read a :: c)

/-- The ways through a round, in a run up to a deadline: what it comes to, and the chronicle afterwards.
-/
inductive Rounded (gap : Millis) (last woke : Instant) (c : History Happening) :
    Except Ended Instant → History Happening → Prop
  /-- The thread is halted in its sleep. -/
  | halted {c₁ : History Happening} (paused : Paused gap last woke c false c₁) :
    Rounded gap last woke c (.error .halted) c₁
  /-- The deadline has come. -/
  | late {c₁ : History Happening} {now : Instant} (paused : Paused gap last woke c true c₁)
    (late : last ≤ now) : Rounded gap last woke c (.error (.exit .timeLimit)) (.read now :: c₁)
  /-- The loop goes on from the wake-up. -/
  | ticked {c₁ : History Happening} {now : Instant} (paused : Paused gap last woke c true c₁)
    (sooner : ¬ last ≤ now) : Rounded gap last woke c (.ok now) (.ticked now .proceed :: .read now :: c₁)
  /-- A critical task is blocked. -/
  | stopped {c₁ : History Happening} {now : Instant} (paused : Paused gap last woke c true c₁)
    (sooner : ¬ last ≤ now) :
    Rounded gap last woke c (.error (.exit .criticalBlocked)) (.ticked now .stop :: .read now :: c₁)
  | failed {c₁ : History Happening} {now : Instant} {fault : Fault}
    (paused : Paused gap last woke c true c₁) (sooner : ¬ last ≤ now) :
    Rounded gap last woke c (.error (.failed fault)) (.ticked now (.fail fault) :: .read now :: c₁)

namespace Host

variable {σ : Type} (h : Host σ) (gap : Millis) (last woke : Instant) (c : History Happening) (s : σ)

/-- Before a sleep the clock is read twice. -/
theorem nextSleep_chronicle : ∃ a b t, h.chronicle.nextSleep gap (some last) woke (c, s) =
    (sleepLength gap (a.since woke) (some (last.since b)), .read b :: .read a :: c, t) :=
  ⟨_, _, _, rfl⟩

/-- Every pause is one of those listed. -/
theorem paused : Paused gap last woke c (h.chronicle.pause gap (some last) woke (c, s)).1
    (h.chronicle.pause gap (some last) woke (c, s)).2.1 := by
  obtain ⟨a, b, t, next⟩ := h.nextSleep_chronicle gap last woke c s
  simp only [pause, next, sleepIfPositive]
  by_cases positive : 0 < (sleepLength gap (a.since woke) (some (last.since b))).count
  · simp only [if_pos positive, chronicle]
    cases h.sleep (sleepLength gap (a.since woke) (some (last.since b))) t with
    | slept u => exact .slept positive rfl
    | failed what u => exact .failed positive rfl
    | halted u => exact .halted positive rfl
  · simp only [if_neg positive]
    exact .busy positive

/-- Every round is one of those listed. -/
theorem rounded : Rounded gap last woke c (h.chronicle.round gap (some last) woke (c, s)).1
    (h.chronicle.round gap (some last) woke (c, s)).2.1 := by
  have paused := h.paused gap last woke c s
  unfold round
  cases pause : h.chronicle.pause gap (some last) woke (c, s) with
  | mk awake state =>
    obtain ⟨c₁, t⟩ := state
    rw [pause] at paused
    cases awake with
    | false => exact .halted paused
    | true =>
      obtain ⟨now, u, reading⟩ : ∃ now u, h.chronicle.read (c₁, t) = (now, .read now :: c₁, u) :=
        ⟨_, _, rfl⟩
      obtain ⟨verdict, v, ticked⟩ : ∃ verdict v, h.chronicle.tick now (.read now :: c₁, u) =
          (verdict, .ticked now verdict :: .read now :: c₁, v) := ⟨_, _, rfl⟩
      simp only [reading, wakeUp, Option.any_some]
      by_cases late : last ≤ now
      · simp only [decide_eq_true late, if_true]
        exact .late paused late
      · simp only [decide_eq_false late, Bool.false_eq_true, if_false, ticked]
        cases verdict with
        | proceed => exact Rounded.ticked paused late
        | stop => exact Rounded.stopped paused late
        | fail fault => exact Rounded.failed paused late

/-- The loop adds to the chronicle. -/
theorem suffix_loop (rounds : Nat) (woke : Instant) (c : History Happening) (s : σ) :
    c <:+ (h.chronicle.loop gap (some last) rounds woke (c, s)).2.1 := by
  have keeps : h.chronicle.Keeps (fun state => c <:+ state.1) (fun _ _ => True) := by
    constructor
    · exact fun _ longer => longer
    · exact fun _ longer => longer.trans (List.suffix_cons _ _)
    · intro length state longer
      simp only [chronicle]
      cases h.sleep length state.2 <;> exact longer.trans (List.suffix_cons _ _)
    · exact fun _ _ longer => longer
    · exact fun _ _ longer => longer.trans (List.suffix_cons _ _)
    · exact fun _ _ _ _ _ => trivial
  exact (loop_keeps keeps gap (some last) rounds woke List.suffix_rfl).1

end Host

end Cadence

import Cadence.Exit
import Cadence.Log
import Cadence.Time
import Cadence.Verdict

/-!
The dispatch loop: sleep the rest of the shortest interval, then evaluate the due tasks.

The rest is measured from the last wake-up, in whole milliseconds; a deadline shortens it.  A
sleep that fails is logged, and the loop goes on as if it had ended.  The loop ends at the
deadline, or when a critical task is blocked, or with a tick that fails.

What the loop needs of the thread that runs it is a `Host`: a clock, a way to sleep, a log, and
the tick.
-/

namespace Cadence

/-- How a sleep came out. -/
inductive Nap (σ : Type)
  | slept (s : σ)
  | failed (what : String) (s : σ)
  /-- The thread is not to go on. -/
  | halted (s : σ)

/-- The thread that runs the loop, with states of type `σ`. -/
structure Host (σ : Type) where
  /-- Makes ready for the ticks, and tells the shortest interval of a task. -/
  start : σ → Millis × σ
  read : σ → Instant × σ
  sleep : Millis → σ → Nap σ
  note : Line → σ → σ
  /-- Evaluates the due tasks. -/
  tick : Instant → σ → Verdict × σ

/-- How the loop came out. -/
inductive Ended
  | exit (why : Exit)
  | failed (fault : Fault)
  /-- The thread was halted in a sleep. -/
  | halted
  /-- The rounds ran out. -/
  | unfinished
  deriving DecidableEq, Repr

namespace Host

variable {σ : Type}

/-- What the thread that runs the loop is called (`Scheduler::kThreadName`). -/
def threadName : String := "CollectorSched"

/-- The sleep that is due `elapsed` nanoseconds after the last wake-up, as `Scheduler::loop` computes it;
`remaining` is the time up to the deadline. -/
def sleepLength (minInterval : Millis) (elapsed : Int64) (remaining : Option Int64) : Millis :=
  let rest := minInterval.less (.truncate elapsed)
  match remaining with
  | some ns => rest.shorter (.ceil ns)
  | none => rest

/-- Sleeps, if there is something to sleep. -/
def sleepIfPositive (h : Host σ) (length : Millis) (s : σ) : Nap σ :=
  if 0 < length.count then h.sleep length s else .slept s

/-- Computes the sleep that is due, `woke` being the instant of the last wake-up.  The clock is
read once for the time that has passed, and once more for the time up to the deadline. -/
def nextSleep (h : Host σ) (minInterval : Millis) (deadline : Option Instant) (woke : Instant)
    (s : σ) : Millis × σ :=
  let (now, s) := h.read s
  let elapsed := now.since woke
  match deadline with
  | none => (sleepLength minInterval elapsed none, s)
  | some last =>
    let (now, s) := h.read s
    (sleepLength minInterval elapsed (some (last.since now)), s)

/-- Sleeps the rest of the interval, the first half of a round of `Scheduler::loop`; `false` if the thread is
not to go on.  A sleep that fails is logged. -/
def pause (h : Host σ) (minInterval : Millis) (deadline : Option Instant) (woke : Instant) (s : σ) :
    Bool × σ :=
  let (length, s) := h.nextSleep minInterval deadline woke s
  match h.sleepIfPositive length s with
  | .slept s => (true, s)
  | .failed what s => (true, h.note ⟨.err, "Exception in scheduler sleep: " ++ what⟩ s)
  | .halted s => (false, s)

/-- Evaluates the due tasks at the wake-up `now`, unless the deadline has come: the second half of a round of
`Scheduler::loop`.  The loop goes on from that wake-up, or it ends. -/
def wakeUp (h : Host σ) (deadline : Option Instant) (now : Instant) (s : σ) :
    Except Ended Instant × σ :=
  if deadline.any (· ≤ now) then (.error (.exit .timeLimit), s)
  else
    match h.tick now s with
    | (.proceed, s) => (.ok now, s)
    | (.fail fault, s) => (.error (.failed fault), s)
    | (.stop, s) =>
      (.error (.exit .criticalBlocked),
        h.note ⟨.info, "Collector scheduler stopped: " ++ Exit.criticalBlocked.name⟩ s)

/-- One round of the loop, from the wake-up at `woke` to the next one. -/
def round (h : Host σ) (minInterval : Millis) (deadline : Option Instant) (woke : Instant) (s : σ) :
    Except Ended Instant × σ :=
  match h.pause minInterval deadline woke s with
  | (false, s) => (.error .halted, s)
  | (true, s) =>
    let (now, s) := h.read s
    h.wakeUp deadline now s

/-- Runs the loop from the wake-up at `woke` on (`Scheduler::loop`), for a number of rounds at the most. -/
def loop (h : Host σ) (minInterval : Millis) (deadline : Option Instant) :
    Nat → Instant → σ → Ended × σ
  | 0, _, s => (.unfinished, s)
  | rounds + 1, woke, s =>
    match h.round minInterval deadline woke s with
    | (.ok now, s) => h.loop minInterval deadline rounds now s
    | (.error ended, s) => (ended, s)

/-- The deadline of a run that starts now, if it is to last for a time only: `Scheduler::run_for` reads the
clock for it. -/
def deadline (h : Host σ) (duration : Option Millis) (s : σ) : Option Instant × σ :=
  match duration with
  | none => (none, s)
  | some d =>
    let (now, s) := h.read s
    (some (now.after d), s)

/-- Runs the loop from now on, for a time if one is given (`Scheduler::run_for`) and without end otherwise
(`Scheduler::run`), and for a number of rounds at the most. -/
def run (h : Host σ) (duration : Option Millis) (rounds : Nat) (s : σ) : Ended × σ :=
  let (last, s) := h.deadline duration s
  let (minInterval, s) := h.start s
  let (now, s) := h.read s
  h.loop minInterval last rounds now s

end Host

end Cadence

import Cadence.Dispatcher.Run
import Cadence.Thread

/-!
Runs of the loop under a script.

The script says how many sleeps the control thread may make, and what is done in which of them.  A
sleep that is too long to wait for is noted, and halts the thread.
-/

namespace Cadence

/-- Something that is done in a sleep. -/
structure Cue where
  /-- The number of the sleep, counted from one. -/
  nth : Nat
  action : Action
  deriving DecidableEq, Repr

/-- What happens in the sleeps of a run. -/
structure Script where
  /-- How many sleeps the thread may make. -/
  maxSleeps : Nat
  /-- What is done in them, in order. -/
  cues : List Cue := []
  deriving DecidableEq, Repr

/-- What is done in a sleep. -/
def Script.actions (script : Script) (nth : Nat) : List Action :=
  (script.cues.filter (·.nth = nth)).map (·.action)

/-- A dispatcher whose control thread follows a script. -/
structure Session where
  dispatcher : Dispatcher
  thread : String := ""
  /-- How many sleeps were begun in this run. -/
  begun : Nat := 0
  /-- The lengths of the sleeps that were let pass in this run, and of the one that was too long. -/
  sleeps : History Millis := []
  deriving DecidableEq, Repr

namespace Session

/-- The longest sleep that is waited for: `10 ^ 9` seconds. -/
def patience : Millis := .ofSeconds (Nat.pow 10 9)

/-- Whether a sleep is too long to wait for. -/
def tooLong (length : Millis) : Bool := patience.count < length.count

/-- The length of a sleep in nanoseconds, as it is shown. -/
def shownSleep (length : Millis) : String :=
  if tooLong length then "forever" else toString length.nanos.toInt

/-- Does actions in order, up to the first that fails; the workers settle after each. -/
def actAll : List Action → Dispatcher → Option Fault × Dispatcher
  | [], s => (none, s)
  | action :: rest, s =>
    match s.obey action with
    | .ok s => actAll rest s
    | .error fault => (some fault, s)

/-- Sleeps under a script. -/
def sleep (script : Script) (length : Millis) (s : Session) : Nap Session :=
  let nth := s.begun + 1
  let s := { s with begun := nth }
  if script.maxSleeps < nth then .halted s
  else
    let s := { s with sleeps := length :: s.sleeps }
    if tooLong length then .halted s
    else
      match actAll (script.actions nth) s.dispatcher with
      | (some fault, dispatcher) => .failed fault.message { s with dispatcher }
      | (none, dispatcher) =>
        .slept { s with dispatcher := dispatcher.sleepUntil (dispatcher.clock.after length) }

/-- The control thread under a script. -/
def host (script : Script) : Host Session :=
  Dispatcher.hostWithin dispatcher (fun s dispatcher => { s with dispatcher }) (sleep script)

/-- The most rounds of a run under a script. -/
def maxRounds : Nat := Nat.pow 2 32

/-- Runs the loop under a script, on a thread that takes the loop's name. -/
def run (script : Script) (duration : Option Millis) (s : Session) : Ended × Session :=
  let (thread, lines) := Thread.rename s.thread Host.threadName
  let dispatcher := { s.dispatcher with log := lines.reverse ++ s.dispatcher.log }
  (host script).run duration maxRounds { dispatcher, thread }

end Session

end Cadence

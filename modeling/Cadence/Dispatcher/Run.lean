import Cadence.Dispatcher.Tick
import Cadence.Loop

/-!
The control thread of a dispatcher, as the host of the dispatch loop.
-/

namespace Cadence.Dispatcher

/-- The control thread of a dispatcher that is part of a larger state, with a sleep of its own. -/
def hostWithin {σ : Type} (get : σ → Dispatcher) (set : σ → Dispatcher → σ)
    (sleep : Millis → σ → Nap σ) : Host σ where
  start s := let dispatcher := (get s).start; (dispatcher.scheduler.minInterval, set s dispatcher)
  read s := ((get s).clock, s)
  sleep
  note line s := set s ((get s).note line.level line.text)
  tick now s := let (verdict, dispatcher) := (get s).tick now; (verdict, set s dispatcher)

/-- The control thread of a dispatcher: a sleep passes, and bodies that sleep wake in it. -/
def host : Host Dispatcher :=
  hostWithin id (fun _ dispatcher => dispatcher) fun length s =>
    .slept (s.sleepUntil (s.clock.after length))

end Cadence.Dispatcher

import Cadence.Fault
import Cadence.Health
import Cadence.Log
import Cadence.Mode
import Cadence.Tally
import Cadence.Time

/-!
Where scheduling events go: they are counted and listed, and hooks answer some of them with an
action.
-/

namespace Cadence

/-- What can be done to a scheduler from outside while it works. -/
inductive Action
  | setMode (mode : Mode)
  | setEnabled (on : Bool)
  | setContention (on : Bool)
  | setHealth (task : String) (health : Health)
  | permit (task : String)
  /-- Moves the clock on. -/
  | advance (ns : Int64)
  | raise (what : String)
  deriving DecidableEq, Repr

/-- An action in answer to an event. -/
structure Hook where
  event : Event
  /-- The task of the event. -/
  task : String
  /-- The count of the event at which to act. -/
  nth : Nat
  action : Action
  deriving DecidableEq, Repr

/-- The destination of the events. -/
structure Sink where
  tally : Tally := {}
  events : History Tally.Key := []
  /-- The hooks, in the order in which they act. -/
  hooks : List Hook := []
  deriving DecidableEq, Repr

namespace Sink

/-- Counts and lists an event. -/
def record (s : Sink) (key : Tally.Key) : Sink :=
  { s with tally := s.tally.record key, events := key :: s.events }

/-- Whether a hook answers an event that has just been counted. -/
def answers (s : Sink) (key : Tally.Key) (h : Hook) : Bool :=
  h.event = key.event ∧ h.task = key.name ∧ (s.tally.count key).toNat = h.nth

/-- The actions that answer an event that has just been counted. -/
def actions (s : Sink) (key : Tally.Key) : List Action :=
  (s.hooks.filter (s.answers key)).map (·.action)

end Sink

end Cadence

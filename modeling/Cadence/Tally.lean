import Cadence.Event

/-!
Counts of events, one per event and task name.

The counters are kept in the order in which they are shown: by the event's code, then by the name.
A key that was never counted has no counter, and its count is zero.  The name of a task is a text; it may
be of any other type with an order, such as a row of bytes.
-/

namespace Cadence

/-- What is counted together: one event of one task. -/
structure Tally.Key (Name : Type := String) where
  event : Event
  name : Name
  deriving DecidableEq, Repr

/-- The counters, in ascending order of their keys. -/
structure Tally (Name : Type := String) where
  /-- A counter per key counted so far.  Counters wrap. -/
  counters : List (Tally.Key Name × UInt64) := []
  deriving DecidableEq, Repr

namespace Tally

variable {Name : Type} [LT Name] [DecidableLT Name] [DecidableEq Name]

/-- The order of the keys: by the event's code, then by the name. -/
def Key.before (a b : Key Name) : Bool :=
  a.event.code < b.event.code || (a.event.code = b.event.code && a.name < b.name)

/-- One more for a key, in counters whose keys ascend. -/
def increment (key : Key Name) : List (Key Name × UInt64) → List (Key Name × UInt64)
  | [] => [(key, 1)]
  | (k, n) :: rest =>
    if key = k then (k, n + 1) :: rest
    else if key.before k then (key, 1) :: (k, n) :: rest
    else (k, n) :: increment key rest

/-- Counts one occurrence of a key (`CounterSink::record`). -/
def record (t : Tally Name) (key : Key Name) : Tally Name := ⟨increment key t.counters⟩

/-- Counts a number of occurrences of a key. -/
def recordTimes (t : Tally Name) (key : Key Name) (times : Nat) : Tally Name :=
  Nat.repeat (·.record key) times t

/-- The count of a key (`CounterSink::count`). -/
def count (t : Tally Name) (key : Key Name) : UInt64 := (t.counters.lookup key).getD 0

/-- All counters, in ascending order of their keys (`CounterSink::snapshot`). -/
def snapshot (t : Tally Name) : List (Key Name × UInt64) := t.counters

end Tally

end Cadence

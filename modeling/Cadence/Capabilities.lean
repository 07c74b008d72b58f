/-!
The capabilities of a task: a byte whose bits are tags, not subtypes.
-/

namespace Cadence

/-- A set of capabilities, one bit each. -/
structure Capabilities where
  bits : UInt8
  deriving DecidableEq, Repr

namespace Capabilities

/-- No capability: an ordinary task. -/
def none : Capabilities := ⟨0⟩

/-- The task reports on the system rather than on a fault under analysis. -/
def telemetry : Capabilities := ⟨1⟩

/-- A task that, blocked, stops the dispatch loop. -/
def critical : Capabilities := ⟨2⟩

/-- The capabilities of either set. -/
def union (a b : Capabilities) : Capabilities := ⟨a.bits ||| b.bits⟩

/-- Whether the two sets share a capability. -/
def has (a b : Capabilities) : Bool := a.bits &&& b.bits != 0

theorem has_none (a : Capabilities) : a.has none = false := by simp [has, none]

theorem has_comm (a b : Capabilities) : a.has b = b.has a := by
  simp only [has, UInt8.and_comm]

end Capabilities

end Cadence

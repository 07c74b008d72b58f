import Cadence.Fault

/-!
What a tick comes to.
-/

namespace Cadence

/-- What a tick comes to. -/
inductive Verdict
  /-- Every task was evaluated. -/
  | proceed
  /-- A critical task is blocked: the dispatch loop has to end. -/
  | stop
  | fail (fault : Fault)
  deriving DecidableEq, Repr

end Cadence

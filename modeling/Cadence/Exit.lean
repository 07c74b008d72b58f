/-!
Why the dispatch loop ends.
-/

namespace Cadence

/-- Why the dispatch loop ended. -/
inductive Exit
  | timeLimit
  | criticalBlocked
  deriving DecidableEq, Repr

namespace Exit

def ofCode? (code : Int32) : Option Exit :=
  if code = 0 then some .timeLimit else if code = 1 then some .criticalBlocked else none

def name : Exit → String
  | timeLimit => "time limit reached"
  | criticalBlocked => "critical collector blocked"

/-- What the exit of a code is called. -/
def nameOfCode (code : Int32) : String := ((ofCode? code).map name).getD "unknown"

end Exit

end Cadence

import Cadence.Log
import Cadence.Text

/-!
Names of threads.  The system keeps at most fifteen bytes of name; a longer one is refused, and the
thread keeps the name it had.
-/

namespace Cadence.Thread

/-- The longest name of a thread, in bytes. -/
def longestName : Nat := 15

/-- Names a thread that was called `current` (`name_current_thread`): its name afterwards, and what is
logged. -/
def rename (current requested : String) : String × List Line :=
  let name := Text.untilNul requested
  if name.utf8ByteSize ≤ longestName then (name, [])
  else (current, [⟨.warn, "Cannot name thread " ++ name ++ ": Numerical result out of range"⟩])

end Cadence.Thread

/-!
Log levels, log lines, and histories that grow at one end.
-/

namespace Cadence

/-- How grave a line is; as a threshold, which lines are shown. -/
inductive Level
  | trace | debug | info | warn | err | critical
  /-- Above every line: as a threshold, nothing is shown. -/
  | off
  deriving DecidableEq, Repr

namespace Level

/-- The levels in ascending order of gravity. -/
def rank : Level → Nat
  | trace => 0
  | debug => 1
  | info => 2
  | warn => 3
  | err => 4
  | critical => 5
  | off => 6

def name : Level → String
  | trace => "trace"
  | debug => "debug"
  | info => "info"
  | warn => "warn"
  | err => "err"
  | critical => "critical"
  | off => "off"

/-- Reads a level (`parse_log_level`): its name, or the long form of `warn` or `err`. -/
def ofText? (text : String) : Option Level :=
  if text = "trace" then some .trace
  else if text = "debug" then some .debug
  else if text = "info" then some .info
  else if text = "warn" ∨ text = "warning" then some .warn
  else if text = "err" ∨ text = "error" then some .err
  else if text = "critical" then some .critical
  else if text = "off" then some .off
  else none

theorem ofText?_name (l : Level) : ofText? l.name = some l := by cases l <;> rfl

end Level

structure Line where
  level : Level
  text : String
  deriving DecidableEq, Repr

namespace Line

def shown (l : Line) : String := l.level.name ++ ": " ++ l.text

/-- Whether a line is shown at a threshold. -/
def passes (threshold : Level) (l : Line) : Bool := threshold.rank ≤ l.level.rank

end Line

/-- What happened so far, the latest first. -/
abbrev History (α : Type) := List α

namespace History

/-- All that happened, the earliest first. -/
def all {α : Type} (h : History α) : List α := h.reverse

/-- What happened after `before`, the earliest first. -/
def since {α : Type} (before h : History α) : List α := (h.take (h.length - before.length)).reverse

theorem since_append {α : Type} (before new : History α) :
    since before (new ++ before) = new.reverse := by
  simp [since]

end History

end Cadence

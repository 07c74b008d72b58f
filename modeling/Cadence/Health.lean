/-!
The health of a task, and what an overrun does to it.

A task that is still running when its next slot comes due is demoted, HEALTHY to SLOW to MUTED,
and stays there; a critical one stops the dispatch loop instead.
-/

namespace Cadence

/-- How a task has kept to its schedule so far. -/
inductive Health
  /-- No overrun yet. -/
  | healthy
  /-- One overrun. -/
  | slow
  /-- Two overruns: the task is not started any more. -/
  | muted
  /-- A code without a name. -/
  | unlisted (code : UInt8) (unnamed : 3 ≤ code)
  deriving DecidableEq, Repr

/-- What happens on an overrun. -/
inductive Overrun
  /-- The task takes the next health; the step from HEALTHY to SLOW is reported. -/
  | demote (next : Health) (report : Bool)
  | stop
  deriving DecidableEq, Repr

namespace Health

def ofCode (code : UInt8) : Health :=
  if unnamed : 3 ≤ code then .unlisted code unnamed
  else if code = 0 then .healthy
  else if code = 1 then .slow
  else .muted

def code : Health → UInt8
  | healthy => 0
  | slow => 1
  | muted => 2
  | unlisted code _ => code

theorem code_ofCode (c : UInt8) : (ofCode c).code = c := by
  unfold ofCode
  split
  · rfl
  · split
    · simp_all [code]
    · split
      · simp_all [code]
      · simp only [code]; grind

theorem ofCode_code (h : Health) : ofCode h.code = h := by
  cases h with
  | healthy => rfl
  | slow => rfl
  | muted => rfl
  | unlisted c unnamed => simp [code, ofCode, unnamed]

def name : Health → String
  | healthy => "HEALTHY"
  | slow => "SLOW"
  | muted => "MUTED"
  | unlisted _ _ => "UNKNOWN"

/-- What an overrun of a task of this health comes to (`on_overrun`). -/
def overrun (h : Health) (critical : Bool) : Overrun :=
  if critical then .stop
  else match h with
    | .healthy => .demote .slow true
    | .slow | .muted | .unlisted _ _ => .demote .muted false

end Health

namespace Overrun

/-- The health after the overrun of a task that had the health `current`. -/
def next (current : Health) : Overrun → Health
  | demote next _ => next
  | stop => current

/-- Whether the overrun is reported as a slow task. -/
def reports : Overrun → Bool
  | demote _ report => report
  | stop => false

end Overrun

end Cadence

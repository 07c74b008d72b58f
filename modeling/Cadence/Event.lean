/-!
The scheduling events that are counted per task.
-/

namespace Cadence

/-- What befell a slot, apart from a run. -/
inductive Event
  | muted
  /-- The task went from HEALTHY to SLOW. -/
  | markedSlow
  /-- The mode does not admit the task. -/
  | skippedForMode
  /-- The task was still in progress. -/
  | skippedInProgress
  /-- A code without a name. -/
  | unlisted (code : Int32) (unnamed : code < 0 ∨ 4 ≤ code)
  deriving DecidableEq, Repr

namespace Event

def ofCode (code : Int32) : Event :=
  if unnamed : code < 0 ∨ 4 ≤ code then .unlisted code unnamed
  else if code = 0 then .muted
  else if code = 1 then .markedSlow
  else if code = 2 then .skippedForMode
  else .skippedInProgress

/-- The code of an event; events are ordered by it. -/
def code : Event → Int32
  | muted => 0
  | markedSlow => 1
  | skippedForMode => 2
  | skippedInProgress => 3
  | unlisted code _ => code

theorem code_ofCode (c : Int32) : (ofCode c).code = c := by
  unfold ofCode
  split
  · rfl
  · split
    · simp_all [code]
    · split
      · simp_all [code]
      · split
        · simp_all [code]
        · simp only [code]; grind

theorem ofCode_code (e : Event) : ofCode e.code = e := by
  cases e with
  | muted => rfl
  | markedSlow => rfl
  | skippedForMode => rfl
  | skippedInProgress => rfl
  | unlisted c unnamed => simp [code, ofCode, unnamed]

theorem code_injective {d e : Event} (h : d.code = e.code) : d = e := by
  rw [← ofCode_code d, h, ofCode_code]

/-- The name under which an event is counted. -/
def name : Event → String
  | muted => "CollectorsMuted"
  | markedSlow => "CollectorsSlow"
  | skippedForMode => "CollectorsSkippedForMode"
  | skippedInProgress => "CollectorsSkipped"
  | unlisted _ _ => "Unknown"

end Event

end Cadence

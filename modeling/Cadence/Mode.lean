/-!
The collector mode, and which tasks it admits.

A mode is held as a byte, so a control may set one that has no name; such a mode admits nothing.
-/

namespace Cadence

/-- What the collector gathers. -/
inductive Mode
  /-- Root-cause analysis: ordinary tasks only. -/
  | rca
  /-- Ordinary and telemetry tasks. -/
  | dual
  /-- Telemetry tasks only. -/
  | telemetry
  /-- A code without a name. -/
  | unlisted (code : UInt8) (unnamed : 2 < code)
  deriving DecidableEq, Repr

namespace Mode

def ofCode (code : UInt8) : Mode :=
  if unnamed : 2 < code then .unlisted code unnamed
  else if code = 0 then .rca
  else if code = 1 then .dual
  else .telemetry

def code : Mode → UInt8
  | rca => 0
  | dual => 1
  | telemetry => 2
  | unlisted code _ => code

theorem code_ofCode (c : UInt8) : (ofCode c).code = c := by
  unfold ofCode
  split
  · rfl
  · split
    · simp_all [code]
    · split
      · simp_all [code]
      · simp only [code]; grind

theorem ofCode_code (m : Mode) : ofCode m.code = m := by
  cases m with
  | rca => rfl
  | dual => rfl
  | telemetry => rfl
  | unlisted c unnamed => simp [code, ofCode, unnamed]

def name : Mode → String
  | rca => "RCA"
  | dual => "DUAL"
  | telemetry => "TELEMETRY"
  | unlisted _ _ => "UNKNOWN"

/-- Reads a mode (`parse_mode`): its name, all in capitals or all in small letters. -/
def ofText? (text : String) : Option Mode :=
  if text = "rca" ∨ text = "RCA" then some .rca
  else if text = "dual" ∨ text = "DUAL" then some .dual
  else if text = "telemetry" ∨ text = "TELEMETRY" then some .telemetry
  else none

/-- Whether a mode admits a telemetry task, or an ordinary one (`can_schedule`). -/
def admits (m : Mode) (forTelemetry : Bool) : Bool :=
  m = .dual || (if forTelemetry then m = .telemetry else m = .rca)

end Mode

end Cadence

import Cadence.Decimal.Significant
import Cadence.Dispatcher

/-!
The table of a dispatcher: one row per task, with its health, its counts and its execution times in
microseconds.
-/

namespace Cadence.Demo.Table

/-- Fills a text up to a width with blanks after it. -/
def left (width : Nat) (text : String) : String :=
  text ++ String.ofList (List.replicate (width - text.utf8ByteSize) ' ')

/-- Fills a text up to a width with blanks before it. -/
def right (width : Nat) (text : String) : String :=
  String.ofList (List.replicate (width - text.utf8ByteSize) ' ') ++ text

/-- The widths of the columns after the first two, which are filled up on the other side. -/
def widths : List Nat := [8, 8, 8, 8, 8, 14, 14]

def line (name state : String) (cells : List String) : String :=
  left 18 name ++ left 9 state ++ String.join (List.zipWith right widths cells) ++ "\n"

def header : String :=
  line "collector" "state" ["runs", "slow", "muted", "busy", "mode", "exe_avg(us)", "exe_max(us)"]

/-- Execution times are shown with six significant digits. -/
def micros (nanos : Int) (runs : Nat) : String := Decimal.text 6 nanos (runs * 1000)

/-- The mean execution time; zero without a run. -/
def mean (stats : Stats) : String :=
  if stats.runs = 0 then micros 0 1 else micros stats.execSum.toNat stats.runs.toNat

def row (tally : Tally) (t : Task) : String :=
  let count (event : Event) := toString (tally.count ⟨event, t.name⟩).toNat
  line t.name t.health.name
    [toString t.stats.runs.toNat, count .markedSlow, count .muted, count .skippedInProgress,
      count .skippedForMode, mean t.stats, micros t.stats.execMax.toInt 1]

def ofDispatcher (s : Dispatcher) : String :=
  "\n--- telemetry (" ++ s.scheduler.mode.name ++ ") ---\n" ++ header ++
    String.join (s.scheduler.entries.map fun e => row s.sink.tally e.task)

end Cadence.Demo.Table

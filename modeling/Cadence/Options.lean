import Cadence.Log
import Cadence.Mode
import Cadence.Numeral
import Cadence.Text

/-!
The options of the command line.

Arguments are read from left to right: `--overload` stands alone, every other flag takes the next
argument as its value, whatever it looks like.  Of several uses of a flag the last one counts.
-/

namespace Cadence

/-- What the command line decides. -/
structure Options where
  mode : Mode := .dual
  workers : Nat := 5
  seconds : Nat := 15
  /-- Whether to add a collector that overruns. -/
  overload : Bool := false
  /-- The least level of a line that is shown. -/
  logLevel : Level := .info
  deriving DecidableEq, Repr

/-- The flags that take a value. -/
inductive Options.Flag
  | mode | workers | seconds | logLevel
  deriving DecidableEq, Repr

namespace Options

/-- The flag that takes no value. -/
def overloadWord : String := "--overload"

/-- How a flag is written. -/
def Flag.word : Flag → String
  | mode => "--mode"
  | workers => "--workers"
  | seconds => "--seconds"
  | logLevel => "--log-level"

/-- The flag that an argument writes. -/
def Flag.ofWord? (word : String) : Option Flag :=
  [Flag.mode, .workers, .seconds, .logLevel].find? (·.word = word)

/-- The options with the value of one flag read in. -/
def set? (o : Options) (flag : Flag) (value : String) : Option Options :=
  match flag with
  | .mode => (Mode.ofText? value).map fun mode => { o with mode }
  | .workers =>
    (Numeral.read? value).bind fun n => if n = 0 then none else some { o with workers := n }
  | .seconds => (Numeral.read? value).map fun seconds => { o with seconds }
  | .logLevel => (Level.ofText? value).map fun logLevel => { o with logLevel }

/-- Reads arguments into options. -/
def read? (o : Options) : List String → Option Options
  | [] => some o
  | word :: rest =>
    if word = overloadWord then read? { o with overload := true } rest
    else match rest with
      | [] => none
      | value :: rest =>
        match (Flag.ofWord? word).bind (o.set? · value) with
        | some o => read? o rest
        | none => none

/-- The options of a command line (`parse_options`), the program's name included; each argument ends at its
first NUL. -/
def ofArguments? (arguments : List String) : Option Options :=
  read? {} (arguments.tail.map Text.untilNul)

end Options

end Cadence

import Cadence.Demo

/-!
The command line: the demonstration, with its tables on the standard output and its log on the
standard error output.
-/

def main (arguments : List String) : IO UInt32 := do
  let outcome := Cadence.Demo.run ("cadence" :: arguments)
  IO.print outcome.output
  IO.eprint outcome.errors
  for line in outcome.log ++ outcome.workerLog do
    IO.eprintln line.shown
  return outcome.exitCode.toUInt32

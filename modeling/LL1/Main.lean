/-
# The checker

The program that checks SQL sources: it reads the files named on the command line, or the
standard input, and prints what `LL1.Checker.execute` leaves behind.
-/
import LL1.Checker.Program

namespace LL1.Checker

/-- The reason why reading failed.  A failure to open a file carries the name of the file; a
directory can be opened, but not read. -/
def readErrorOf : IO.Error → ReadError
  | .noFileOrDirectory .. => .notFound
  | .inappropriateType (some _) .. => .notDirectory
  | .inappropriateType none .. => .isDirectory
  | .invalidArgument (some _) .. => .nameTooLong
  | e => .other (toString e)

/-- The bytes at an origin. -/
def readBytes (origin : Origin) : IO (Except ReadError ByteArray) := do
  let read : IO ByteArray :=
    match origin with
    | .standardInput => do (← IO.getStdin).readBinToEnd
    | .file path => IO.FS.readBinFile path
  return (← read.toBaseIO).mapError readErrorOf

/-- Runs the program on the arguments of its command line; the result is its exit code. -/
def run (args : List String) : IO UInt32 := do
  let execution ← execute stepLimit readBytes args
  IO.print execution.output
  IO.eprint execution.errors
  return execution.exitCode

end LL1.Checker

/-- The program. -/
def main (args : List String) : IO UInt32 := LL1.Checker.run args

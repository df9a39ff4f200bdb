/-
# The program without its effects

What the program leaves behind follows from the arguments of its command line and from what is
found at the origins that they name.  In which way an origin is read is left open, so that the same
program can read files and can be given a function instead.
-/
import LL1.Checker.Report
import LL1.Sql.Grammar
import LL1.Sql.Lexicon

namespace LL1.Checker

/-- More steps than any computation of the program takes. -/
def stepLimit : Nat := 1000000000000

/-- The parse table of the language. -/
def sqlTable : Option Table := do
  let grammar ← Sql.grammar.toOption
  let compilation ← grammar.compile stepLimit
  compilation.result.toOption

/-- What is read, in order. -/
def Options.origins (o : Options) : List Origin :=
  if o.checksStandardInput then [.standardInput] else o.files.map .file

/-- What a program leaves behind when it has ended. -/
structure Execution where
  /-- The standard output. -/
  output : String
  /-- The standard error. -/
  errors : String
  /-- Zero if the program succeeded. -/
  exitCode : UInt32
deriving DecidableEq, Repr

namespace Execution

/-- The program ends with a report. -/
def ofReport (r : Report) : Execution := ⟨r.output, r.errors, r.exitCode⟩

/-- The program ends before there is anything to report. -/
def ofFailure (exitCode : UInt32) (message : String) : Execution :=
  ⟨"", "error: " ++ message ++ "\n", exitCode⟩

/-- The program ends with a report, unless its limit does not suffice for one. -/
def ofResult : Option Report → Execution
  | none => ofFailure 3 "the step limit has been reached"
  | some r => ofReport r

end Execution

section

variable {m : Type → Type} [Monad m]

/-- The inputs that the options name. -/
def Options.inputs (o : Options) (read : Origin → m (Except ReadError ByteArray)) :
    m (List Input) :=
  o.origins.mapM fun origin => return .ofBytes origin (← read origin)

/-- Runs the program on the arguments of its command line. -/
def execute (limit : Nat) (read : Origin → m (Except ReadError ByteArray)) (args : List String) :
    m Execution := do
  match Options.ofArgs args with
  | .error arg => return .ofFailure 2 s!"unexpected argument '{arg}' found"
  | .ok options =>
    let inputs ← options.inputs read
    return .ofResult (sqlTable.bind fun table => report limit options table Sql.lexicon inputs)

end

end LL1.Checker

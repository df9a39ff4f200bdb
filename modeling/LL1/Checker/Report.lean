/-
# Reports of the checker

The checker prints the listings that were asked for.  Then it reads all sources, and only if
none of them fails it parses them one by one, with the same parser.  Errors of a source are
reported one by one, and a summary of it afterwards.
-/
import LL1.Checker.Input
import LL1.Checker.Options
import LL1.Parsing.Parser
import LL1.Prediction.Table

namespace LL1.Checker

/-- What a program leaves behind. -/
structure Report where
  /-- The standard output. -/
  output : String
  /-- The standard error. -/
  errors : String
  /-- Whether the program succeeded. -/
  success : Bool
deriving DecidableEq, Repr

/-- What is reported about one source. -/
structure Judgement where
  /-- The errors, with a last line that says so if the rest of the source is given up. -/
  lines : List String
  /-- The number of errors. -/
  count : Nat
deriving DecidableEq, Repr

namespace Judgement

/-- The lines about a run on the source with a name. -/
def runLines (name : String) (r : Run) : List String :=
  match r.outcome with
  | .ok _ => []
  | .error .aborted => []
  | .error e =>
    (name ++ ": " ++ e.text) :: if r.parser.unrecoverable then [name ++ ": giving up"] else []

/-- Whether a run has met a new error. -/
def isError (r : Run) : Bool :=
  match r.outcome with
  | .ok _ => false
  | .error .aborted => false
  | .error _ => true

/-- The judgement on a source that was parsed by some runs. -/
def ofRuns (name : String) (rs : List Run) : Judgement :=
  ⟨rs.flatMap (runLines name), rs.countP isError⟩

/-- The summary of a source with a name. -/
def summary (name : String) (j : Judgement) : String :=
  if j.count = 0 then name ++ ": ok"
  else s!"{name}: {j.count} error" ++ if j.count = 1 then "" else "s"

end Judgement

/-- The runs of a parser on a source up to the final one, and the parser then, if `fuel`
suffices. -/
def parseAll (fuel : Nat) (p : Parser) (source : String) : Option (List Run × Parser) := do
  let rs ← (p.reopen source).runs fuel fuel
  let last ← rs.getLast?
  if last.isFinal then some (rs, last.parser) else none

/-- Judges named sources one after the other, with the same parser. -/
def judgeAll (fuel : Nat) : Parser → List (String × String) → Option (List (String × Judgement))
  | _, [] => some []
  | p, (name, source) :: sources => do
    let (rs, p) ← parseAll fuel p source
    let js ← judgeAll fuel p sources
    some ((name, .ofRuns name rs) :: js)

namespace Report

/-- The exit code of a program that ends with the report. -/
def exitCode (r : Report) : UInt32 := if r.success then 0 else 1

@[simp] theorem exitCode_eq_zero_iff {r : Report} : r.exitCode = 0 ↔ r.success = true := by
  cases h : r.success <;> simp [exitCode, h]

/-- A report without listings on sources that were judged. -/
def ofJudgements (js : List (String × Judgement)) : Report where
  output := Text.unlines (js.map fun (name, j) => j.summary name)
  errors := Text.unlines (js.flatMap fun (_, j) => j.lines)
  success := js.all fun (_, j) => j.count == 0

/-- The report on a source that cannot be read. -/
def ofFailure (origin : Origin) (e : ReadError) : Report where
  output := ""
  errors := "Error: " ++ origin.failure ++ "\n\nCaused by:\n    " ++ e.text ++ "\n"
  success := false

/-- The listings that were asked for, each followed by an empty line. -/
def listings (o : Options) (t : Table) : String :=
  (if o.dumpGrammar then t.rules.text ++ "\n" else "")
    ++ (if o.dumpSets then t.sets.text t.rules ++ "\n" else "")
    ++ (if o.dumpTable then t.text ++ "\n" else "")

end Report

/-- The named sources of inputs, or the first one that could not be read. -/
def readAll : List Input → Except (Origin × ReadError) (List (String × String))
  | [] => .ok []
  | i :: is => do
    let source ← i.content.mapError (i.origin, ·)
    let sources ← readAll is
    .ok ((i.origin.name, source) :: sources)

/-- The report on inputs, without listings. -/
def check (fuel : Nat) (t : Table) (lexicon : Lexicon) (inputs : List Input) : Option Report :=
  match readAll inputs with
  | .error (origin, e) => some (.ofFailure origin e)
  | .ok sources =>
    (judgeAll fuel (.ofSource t.predictor lexicon "") sources).map .ofJudgements

/-- All that the checker prints. -/
def report (fuel : Nat) (o : Options) (t : Table) (lexicon : Lexicon) (inputs : List Input) :
    Option Report :=
  (check fuel t lexicon inputs).map fun r => { r with output := Report.listings o t ++ r.output }

end LL1.Checker

/-
# The checker judges every source on its own

The checker parses all of its sources with the same parser.  A parser that is opened again is as
new, however it has ended before, so the judgement on a source is that of a parser that has read
nothing else.  What is reported on a list of sources is therefore what is reported on each of them,
one behind the other.  The errors of a source are counted in the way in which they are reported, and
since every message is a line, their number is that of the lines which begin like the report of an
error.

The program finds its inputs at the origins that its options name, and leaves the report on them
behind.  Asked for one origin alone, it finds the same input there, so it judges the sources on
their own, too.
-/
import LL1.Checker.Program
import LL1.Proofs.Messages
import LL1.Proofs.Scripts

namespace LL1

namespace Checker

variable {pr : Predictor} {lexicon : Lexicon} {l : Lexer} {p : Parser} {rs : List Run} {r : Run}
  {o : Options} {table : Table} {inputs : List Input} {name source : String}
  {js : List (String × Judgement)} {sources : List (String × String)}

/-! ### Judgements -/

namespace Report

end Report

/-- The checker comes to this report on the inputs, if it is given enough fuel. -/
def Prints (o : Options) (table : Table) (lexicon : Lexicon) (inputs : List Input) (r : Report) :
    Prop :=
  ∃ n, ∀ fuel, n ≤ fuel → report fuel o table lexicon inputs = some r

/-- There are no two reports on the same inputs. -/
lemma Prints.unique {r r' : Report} (h : Prints o table lexicon inputs r)
    (h' : Prints o table lexicon inputs r') : r = r' := by
  obtain ⟨n, hn⟩ := h
  obtain ⟨n', hn'⟩ := h'
  exact Option.some.inj
    ((hn _ (Nat.le_max_left n n')).symm.trans (hn' _ (Nat.le_max_right n n')))

lemma sqlTable_eq_some_iff : sqlTable = some table ↔ ∃ g c,
    Sql.grammar = .ok g ∧ g.compile stepLimit = some c ∧ c.result = .ok table := by
  simp only [sqlTable, Option.bind_eq_bind, Option.bind_eq_some_iff, toOption_eq_some_iff]
  constructor
  · rintro ⟨g, hg, c, h, hc⟩
    exact ⟨g, c, hg, h, hc⟩
  · rintro ⟨g, c, hg, h, hc⟩
    exact ⟨g, hg, c, h, hc⟩

/-- The checker has the table that comes out with less fuel. -/
lemma sqlTable_of_compile {g : Grammar} {c : Compilation} (hg : Sql.grammar = .ok g)
    (h : g.compile 60 = some c) (hc : c.result = .ok table) : sqlTable = some table := by
  have hlimit : 60 ≤ stepLimit := by decide
  exact sqlTable_eq_some_iff.mpr ⟨g, c, hg, Grammar.compile_mono h hlimit, hc⟩

/-- Its nonterminals have names without line ends. -/
lemma isLine_name (h : sqlTable = some table) (i : Nat) : Text.IsLine (table.predictor.name i) := by
  -- a computation with much less fuel has the same result, and can be made here
  obtain ⟨g, c, table', hg, hcompile, hc, htest⟩ := Sql.exists_table_passing
    (fun table => table.rules.rules.all fun rule => decide (Text.IsLine rule.name))
    (by decide +kernel)
  obtain rfl : table' = table := Option.some.inj ((sqlTable_of_compile hg hcompile hc).symm.trans h)
  show Text.IsLine (table'.rules.name i)
  rw [Rules.name]
  cases hrule : table'.rules.rules[i]? with
  | none => simp [Text.IsLine]
  | some rule =>
    have hmem := Array.mem_of_getElem? hrule
    exact of_decide_eq_true (Array.all_eq_true'.mp htest rule hmem)

/-! ### All inputs -/

variable {read : Origin → Except ReadError ByteArray} {origin : Origin}

/-- What is found at an origin. -/
def Input.found (read : Origin → Except ReadError ByteArray) (origin : Origin) : Input :=
  .ofBytes origin (read origin)

/-- Asked for with these options, the program leaves this behind, if its limit is high enough.  A
function stands in for all that is read. -/
structure Leaves (read : Origin → Except ReadError ByteArray) (o : Options) (x : Execution) :
    Prop where
  exists_args : ∃ args, Options.ofArgs args = .ok o
  exists_limit : ∃ n, ∀ limit, n ≤ limit → ∀ args, Options.ofArgs args = .ok o →
    Id.run (execute limit (fun origin => pure (read origin)) args) = x

/-- There are no two things that the program leaves behind. -/
lemma Leaves.unique {x y : Execution} (h : Leaves read o x) (h' : Leaves read o y) : x = y := by
  obtain ⟨args, hargs⟩ := h.exists_args
  obtain ⟨n, hn⟩ := h.exists_limit
  obtain ⟨n', hn'⟩ := h'.exists_limit
  exact (hn _ (Nat.le_max_left n n') args hargs).symm.trans
    (hn' _ (Nat.le_max_right n n') args hargs)

/-- The options for one origin alone, with the same listings. -/
def Options.only (o : Options) : Origin → Options
  | .standardInput => { o with files := [] }
  | .file path => { o with files := [path] }

end Checker

end LL1

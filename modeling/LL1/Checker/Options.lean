/-
# Options of the checker

The command line of the checker names the files to be checked and the listings to be printed
before that.
-/

namespace LL1.Checker

/-- What the checker is asked to do. -/
structure Options where
  /-- The files to be checked, in order. -/
  files : List String
  /-- Print the rules. -/
  dumpGrammar : Bool
  /-- Print the FIRST and FOLLOW sets. -/
  dumpSets : Bool
  /-- Print the parse table. -/
  dumpTable : Bool
deriving DecidableEq, Repr

namespace Options

/-- The options without arguments. -/
def default : Options := ⟨[], false, false, false⟩

/-- Reads arguments one after the other; an argument that looks like an option and is none is
refused.  All arguments after two dashes are files. -/
def add (o : Options) : List String → Except String Options
  | [] => .ok o
  | "--" :: files => .ok { o with files := o.files ++ files }
  | "--dump-grammar" :: args => add { o with dumpGrammar := true } args
  | "--dump-sets" :: args => add { o with dumpSets := true } args
  | "--dump-table" :: args => add { o with dumpTable := true } args
  | arg :: args =>
    if arg.startsWith "-" && arg != "-" then .error arg
    else add { o with files := o.files ++ [arg] } args

/-- The options given by the arguments of a command line, or an argument that is none. -/
def ofArgs (args : List String) : Except String Options := default.add args

/-- Whether a listing is to be printed. -/
def dumps (o : Options) : Bool := o.dumpGrammar || o.dumpSets || o.dumpTable

/-- Whether the standard input is to be checked: without files, unless listings were asked for
instead. -/
def checksStandardInput (o : Options) : Bool := o.files.isEmpty && !o.dumps

end Options

end LL1.Checker

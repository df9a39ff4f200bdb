/-
# Inputs of the checker

A source comes from a file or from the standard input, and reading it may fail.
-/

namespace LL1.Checker

/-- Where a source comes from. -/
inductive Origin where
  | standardInput
  | file (path : String)
deriving DecidableEq, Repr

namespace Origin

/-- How a source is called in reports. -/
def name : Origin → String
  | standardInput => "<standard input>"
  | file path => path

/-- Says that a source could not be read. -/
def failure : Origin → String
  | standardInput => "failed to read the standard input"
  | file path => s!"failed to read `{path}'"

end Origin

/-- Why a source could not be read. -/
inductive ReadError where
  | notFound
  | isDirectory
  /-- The path goes on after a file. -/
  | notDirectory
  /-- A name in the path is longer than a name can be. -/
  | nameTooLong
  /-- The bytes are not UTF-8. -/
  | notText
  /-- Any other reason, in words. -/
  | other (reason : String)
deriving DecidableEq, Repr

namespace ReadError

/-- The wording of a reason. -/
def text : ReadError → String
  | notFound => "No such file or directory (os error 2)"
  | isDirectory => "Is a directory (os error 21)"
  | notDirectory => "Not a directory (os error 20)"
  | nameTooLong => "File name too long (os error 36)"
  | notText => "stream did not contain valid UTF-8"
  | other reason => reason

end ReadError

/-- A source, if it could be read. -/
structure Input where
  /-- Where it comes from. -/
  origin : Origin
  /-- Its text, or why there is none. -/
  content : Except ReadError String

namespace Input

/-- An input of which the bytes are given. -/
def ofBytes (origin : Origin) (bytes : Except ReadError ByteArray) : Input :=
  ⟨origin, bytes.bind fun b =>
    match String.fromUTF8? b with
    | some s => .ok s
    | none => .error .notText⟩

end Input

end LL1.Checker

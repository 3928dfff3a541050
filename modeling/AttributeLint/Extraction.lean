import AttributeLint.AttributeName
import AttributeLint.Compilation

/-!
# Extraction — the strings to check

From the usages of one attribute, the strings that are to be checked: a usage has one when exactly
one argument reaches the constructor and that argument is a string. The other usages are kept
apart, each with the reason.
-/

namespace AttributeLint

/-- A string to check and the declaration it belongs to. -/
structure Occurrence where
  file : FileId
  targetStart : Nat
  text : String
  deriving DecidableEq, Repr

/-- Why a usage has no string to check. -/
inductive Malformation where
  | noArguments
  | tooManyArguments (count : Nat)
  | nonStringArgument
  deriving DecidableEq, Repr

/-- The wording of a malformation. -/
def Malformation.message : Malformation → String
  | .noArguments => "no arguments"
  | .tooManyArguments count => toString count ++ " arguments"
  | .nonStringArgument => "argument is not a string literal"

/-- A usage without a string to check. -/
structure MalformedUsage where
  file : FileId
  targetStart : Nat
  name : String
  reason : Malformation
  deriving DecidableEq, Repr

/-- The usages of one attribute, sorted into those to check and the others. -/
structure Extraction where
  occurrences : List Occurrence
  malformed : List MalformedUsage
  deriving DecidableEq, Repr

/-- The one string that reaches the constructor, or what is wrong instead. -/
def Usage.singleString (u : Usage) : Except Malformation String :=
  match u.constructorArguments with
  | [] => .error .noArguments
  | [{ value := .string text, .. }] => .ok text
  | [{ value := .other _, .. }] => .error .nonStringArgument
  | arguments => .error (.tooManyArguments arguments.length)

namespace Extraction

/-- The usages of a unit that refer to the attribute, each with the file it stands in. -/
def matching (wanted : AttributeName) (unit : CompilationUnit) : List (FileId × Usage) :=
  (unit.usages.filter fun u => wanted.isWrittenAs u.name).map fun u => (unit.file, u)

/-- The string of a usage, if it has one to check. -/
def occurrence? (use : FileId × Usage) : Option Occurrence :=
  match use.2.singleString with
  | .ok text => some { file := use.1, targetStart := use.2.targetStart, text }
  | .error _ => none

/-- The usage with what is wrong with it, if it has no string to check. -/
def malformed? (use : FileId × Usage) : Option MalformedUsage :=
  match use.2.singleString with
  | .ok _ => none
  | .error reason =>
    some { file := use.1, targetStart := use.2.targetStart, name := use.2.name, reason }

/-- The usages of an attribute in a compilation, in the order of files and then of the source. -/
def ofCompilation (c : Compilation) (wanted : AttributeName) : Extraction :=
  let uses := c.units.flatMap (matching wanted)
  { occurrences := uses.filterMap occurrence?, malformed := uses.filterMap malformed? }

end Extraction

end AttributeLint

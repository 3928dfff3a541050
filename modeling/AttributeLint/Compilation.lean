import AttributeLint.Source
import AttributeLint.Usage

/-!
# Compilation — what one run looks at

A compilation registers files and holds the usages of attributes found in each, by the front end of
this library or by another one.
-/

namespace AttributeLint

/-- The usages found in one registered file. -/
structure CompilationUnit where
  file : FileId
  usages : List Usage
  deriving DecidableEq, Repr

/-- Files and their usages, in the order of registration. -/
structure Compilation where
  sources : SourceMap
  units : List CompilationUnit
  deriving DecidableEq, Repr

namespace Compilation

/-- No files yet; the source map has the given identity. -/
def empty (id : Nat) : Compilation :=
  { sources := .empty id, units := [] }

/-- Registers a file together with usages found elsewhere. -/
def addUnit (c : Compilation) (path text : String) (usages : List Usage) : Compilation :=
  { sources := c.sources.add path text
    units := c.units ++ [{ file := c.sources.nextId, usages }] }

/-- Registers a file and finds its usages. -/
def addParsed (c : Compilation) (path text : String) : Compilation :=
  c.addUnit path text (Usage.ofSource text)

/-- The compilation of the given paths and texts. -/
def ofSources (id : Nat) (sources : List (String × String)) : Compilation :=
  sources.foldl (fun c source => c.addParsed source.1 source.2) (empty id)

end Compilation

end AttributeLint

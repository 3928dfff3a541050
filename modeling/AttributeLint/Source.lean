import AttributeLint.Text.LineColumn

/-!
# Source — files and the handles that name them

A source map is an ordered collection of files. It issues a handle for each file it is given, and a
handle carries the identity of its map, so that a map answers for its own handles only.
-/

namespace AttributeLint

/-- A handle for a file: the identity of the map that issued it and the place of the file there. -/
structure FileId where
  map : Nat
  index : Nat
  deriving DecidableEq, Repr

namespace FileId

/-- Handles are ordered by map and then by place. -/
def order (a b : FileId) : Ordering :=
  (compare a.map b.map).then (compare a.index b.index)

/-- A handle as it is shown: the place alone. -/
def display (id : FileId) : String :=
  "#" ++ toString id.index

end FileId

/-- A source file with its full text. -/
structure SourceFile where
  id : FileId
  path : String
  text : String
  deriving DecidableEq, Repr

namespace SourceFile

/-- The length of the text in bytes. -/
def size (file : SourceFile) : Nat :=
  Text.width file.text.toList

/-- The line and column of a byte offset. -/
def lineColumn (file : SourceFile) (offset : Nat) : Text.LineColumn :=
  .ofOffset file.text.toList offset

/-- The number of lines. -/
def lineCount (file : SourceFile) : Nat :=
  Text.lineCount file.text.toList

end SourceFile

/-- An ordered collection of files under an identity of its own. -/
structure SourceMap where
  id : Nat
  files : List SourceFile
  deriving DecidableEq, Repr

/-- A handle that was not issued by the map it is looked up in. -/
structure UnknownFile where
  file : FileId
  deriving DecidableEq, Repr

/-- The wording of the failed look-up. -/
def UnknownFile.message (e : UnknownFile) : String :=
  "file " ++ e.file.display ++ " is not part of the source set"

namespace SourceMap

/-- A map with no files. -/
def empty (id : Nat) : SourceMap :=
  { id, files := [] }

/-- The handle that the next file will get. -/
def nextId (m : SourceMap) : FileId :=
  { map := m.id, index := m.files.length }

/-- The map with one more file, which has the handle `nextId`. -/
def add (m : SourceMap) (path text : String) : SourceMap :=
  { m with files := m.files ++ [{ id := m.nextId, path, text }] }

/-- The file that a handle names in this map. -/
def get? (m : SourceMap) (id : FileId) : Option SourceFile :=
  if id.map = m.id then m.files[id.index]? else none

/-- The file that a handle names, or the failure for a handle of another map. -/
def resolve (m : SourceMap) (id : FileId) : Except UnknownFile SourceFile :=
  match m.get? id with
  | some file => .ok file
  | none => .error ⟨id⟩

end SourceMap

end AttributeLint

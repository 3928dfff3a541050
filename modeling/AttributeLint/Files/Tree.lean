import AttributeLint.Files
import AttributeLint.Text.Blank

/-!
# Tree — a directory tree held in memory

A tree lists files and directories by the names on the way to them. A directory is there when it is
listed or when something below it is. Paths are followed name by name from the top: a point and an
empty name stay, two points go up, and every name but the last must be that of a directory.
-/

namespace AttributeLint

/-- What a path of a tree may lead to. -/
inductive FileTree.Entry where
  | file (bytes : ByteArray)
  | directory

/-- The path leads to a directory. -/
def FileTree.Entry.isDirectory : Entry → Bool
  | .file _ => false
  | .directory => true

/-- Files and directories by the names on the way to them. -/
structure FileTree where
  entries : List (List String × FileTree.Entry)

namespace FileTree

/-- The place of a file or directory: the names on the way to it. -/
abbrev Place := List String

/-- A tree without entries; its top is a directory. -/
def empty : FileTree :=
  ⟨[]⟩

/-- What is at a place. -/
def at? (tree : FileTree) (place : Place) : Option Entry :=
  if place = [] then some .directory
  else
    match tree.entries.lookup place with
    | some entry => some entry
    | none =>
      if tree.entries.any fun e => place.isPrefixOf e.1 then some .directory else none

/-- There is a directory at a place. -/
def isDirectoryAt (tree : FileTree) (place : Place) : Bool :=
  (tree.at? place).any (·.isDirectory)

/-- The place that names lead to from `place`. The last of them need not exist. -/
def follow (tree : FileTree) (place : Place) : List String → Option Place
  | [] => some place
  | name :: names =>
    if tree.isDirectoryAt place then
      if Path.stays name then tree.follow place names
      else if name = ".." then
        if place = [] then none else tree.follow place.dropLast names
      else tree.follow (place ++ [name]) names
    else none

/-- The place that a path leads to, unless it begins outside the tree. -/
def place? (tree : FileTree) (path : String) : Option Place :=
  if path = "" ∨ path.startsWith "/" then none else tree.follow [] (Path.names path)

/-- What a path leads to. -/
def find? (tree : FileTree) (path : String) : Option Entry :=
  (tree.place? path).bind tree.at?

/-- The bytes of the file that a path leads to. -/
def bytes? (tree : FileTree) (path : String) : Option ByteArray :=
  match tree.find? path with
  | some (.file bytes) => some bytes
  | _ => none

/-- The name of an entry that lies directly in the directory at a place. -/
def childName? (place : Place) (entry : Place × Entry) : Option String :=
  if place.isPrefixOf entry.1 then (entry.1.drop place.length).head? else none

/-- The names in the directory at a place, each once. -/
def children (tree : FileTree) (place : Place) : List String :=
  (tree.entries.filterMap (childName? place)).eraseDups

/-- The tree with an entry put at a place. -/
def put (tree : FileTree) (place : Place) (entry : Entry) : FileTree :=
  ⟨tree.entries.filter (·.1 ≠ place) ++ [(place, entry)]⟩

/-- The tree with a file or directory put where the names of the path lead, and the directories on
the way. -/
def add (tree : FileTree) (path : String) (entry : Entry) : FileTree :=
  tree.put (Path.names path) entry

/-- The tree as a disk. -/
def disk (tree : FileTree) : Disk where
  read? path := (tree.bytes? path).bind String.fromUTF8?
  isDirectory path := (tree.find? path).any (·.isDirectory)
  entries? path := (tree.place? path).map tree.children

/-- The tree with a directory that is there or whose place is free. Slashes at the end of the path
do not count. -/
def makeDirectory? (tree : FileTree) (path : String) : Option FileTree := do
  let place ← tree.place? (String.ofList (Text.stripEnd (· = '/') path.toList))
  match tree.at? place with
  | some .directory => some tree
  | some (.file _) => none
  | none => some (tree.put place .directory)

/-- The tree with the directory that a path names and all directories on the way to it. -/
def createDirectory? (tree : FileTree) (path : String) : Option FileTree :=
  (Path.directoriesTo path).foldlM makeDirectory? tree

/-- The tree with a file written, unless its directory is missing or a directory is in its place. -/
def write? (tree : FileTree) (path text : String) : Option FileTree :=
  match tree.place? path with
  | none => none
  | some place =>
    if tree.isDirectoryAt place.dropLast ∧ ¬ tree.isDirectoryAt place then
      some (tree.put place (.file text.toUTF8))
    else none

end FileTree

end AttributeLint

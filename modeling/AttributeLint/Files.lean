/-!
# Files — what a run sees of the file system

A run asks three questions about paths: what text a file holds, whether there is a directory, and
what the entries of a directory are called. A `Disk` is any answer to them, so everything that
depends on files is an ordinary function of a disk. The order in which entries are listed means
nothing.
-/

namespace AttributeLint

/-- The answers to what a run may ask about paths. -/
structure Disk where
  /-- The text of a file, unless the path names no file or its bytes are not UTF-8. -/
  read? : String → Option String
  /-- Whether the path names a directory. -/
  isDirectory : String → Bool
  /-- The names of the entries of a directory, unless it cannot be listed. -/
  entries? : String → Option (List String)

namespace Path

/-- A path with a name behind it. -/
def join (path name : String) : String :=
  if path.isEmpty || path.endsWith "/" then path ++ name else path ++ "/" ++ name

/-- The names that a path consists of. -/
def names (path : String) : List String :=
  (path.toList.splitOn '/').map String.ofList

/-- The name stays in the same directory: it is empty or a point. -/
def stays (name : String) : Bool :=
  name = "" || name = "."

/-- The beginnings of a path that end in front of its last name, the shortest first. Names that stay
where they are count as no names. -/
def waypoints : List String → List (List String)
  | [] => []
  | name :: names =>
    let deeper := (waypoints names).map (name :: ·)
    if stays name || names.all stays then deeper else [name] :: deeper

/-- The paths of the directories to make, one after the other, so that a path and all that lies on
the way to it are directories. A point at the end stays: no new directory goes by that name. -/
def directoriesTo (path : String) : List String :=
  (waypoints (names path)).map ("/".intercalate ·) ++ [path]

/-- The file name ends with a point and the extension, and has something before them. -/
def hasExtension (extension name : String) : Bool :=
  let ending := "." ++ extension
  name.endsWith ending && name ≠ ending

end Path

end AttributeLint

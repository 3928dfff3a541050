import AttributeLint.Files

/-!
# Snapshot — a disk of answers collected beforehand

A snapshot holds the texts of some files and the entries of some directories. As a disk it knows
these paths and no others.
-/

namespace AttributeLint

/-- What was found under some paths. -/
structure Snapshot where
  /-- The files that could be read, with their texts. -/
  texts : List (String × String)
  /-- The directories, with the names of their entries if they could be listed. -/
  directories : List (String × Option (List String))
  deriving DecidableEq, Repr

namespace Snapshot

/-- The snapshot as a disk. -/
def disk (s : Snapshot) : Disk where
  read? path := s.texts.lookup path
  isDirectory path := (s.directories.lookup path).isSome
  entries? path := (s.directories.lookup path).join

end Snapshot

end AttributeLint

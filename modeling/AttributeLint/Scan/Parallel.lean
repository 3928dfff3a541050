import AttributeLint.Scan

/-!
# Parallel — scanning in chunks that finish in any order

The strings are divided into chunks of a fixed size, each chunk is a task, and tasks finish in any
order. A finished task brings the number of its chunk, and the results are put together by these
numbers.
-/

namespace AttributeLint.Scan

/-- The list in stretches of `size + 1`, the last of which may be shorter. -/
def chunksOfSucc {α : Type} (size : Nat) : List α → List (List α)
  | [] => []
  | a :: as => (a :: as.take size) :: chunksOfSucc size (as.drop size)
termination_by as => as.length
decreasing_by
  simp only [List.length_drop, List.length_cons]
  omega

/-- The list in stretches of the given size; a size of zero is taken for one. -/
def chunks {α : Type} (size : Nat) (as : List α) : List (List α) :=
  chunksOfSucc (size - 1) as

/-- The result of a task: the number of its chunk and the violations found in it. -/
abbrev Finished := Nat × List Violation

/-- The tasks in the order of their chunks. -/
def tasks (rule : Rule) (chunkSize : Nat) (os : List Occurrence) : List Finished :=
  (chunks chunkSize os).mapIdx fun i chunk => (i, scanAll rule chunk)

/-- The results of `count` tasks put together in the order of their chunks. -/
def merge (count : Nat) (finished : List Finished) : List Violation :=
  let slots := finished.foldl (fun slots task => slots.set task.1 task.2) (List.replicate count [])
  slots.flatten

/-- The violations of several strings, scanned by tasks that finish in the order that `arrange`
puts them in. -/
def scanParallel (arrange : List Finished → List Finished) (rule : Rule) (chunkSize : Nat)
    (os : List Occurrence) : List Violation :=
  let started := tasks rule chunkSize os
  merge started.length (arrange started)

/-- The tasks in the order of their chunks, unless an addition in one of them overflows. -/
def tasks? (rule : Rule) (chunkSize : Nat) (os : List Occurrence) : Option (List Finished) :=
  ((chunks chunkSize os).mapIdx fun i chunk => (scanAll? rule chunk).map (i, ·)).mapM id

/-- The violations of several strings, scanned by tasks that finish in the order that `arrange`
puts them in. A task in which an addition overflows does not finish, and the scan has no result
then. -/
def scanParallel? (arrange : List Finished → List Finished) (rule : Rule) (chunkSize : Nat)
    (os : List Occurrence) : Option (List Violation) :=
  (tasks? rule chunkSize os).map fun started => merge started.length (arrange started)

end AttributeLint.Scan

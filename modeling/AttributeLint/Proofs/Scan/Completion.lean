import AttributeLint.Analysis

/-!
# Completion — the order in which scan tasks finish

A parallel scan collects the results of its tasks as they finish. Each result carries the number of
its chunk and is written into the slot of that number, so the order of the writes leaves no trace:
after all tasks have finished, in whichever order, slot `i` holds the violations of chunk `i`
(`foldl_set_perm_tasks`). The chunks make up the list (`flatten_chunks`), hence the merged result is
that of one scan, and a run that scans in parallel is a run that does not.
-/

namespace AttributeLint.Scan

/-! ## Chunks -/

theorem flatten_chunksOfSucc {α : Type} (size : Nat) (as : List α) :
    (chunksOfSucc size as).flatten = as := by
  fun_induction chunksOfSucc size as with
  | case1 => rfl
  | case2 a as ih =>
    rw [List.flatten_cons, ih, List.cons_append, List.take_append_drop]

/-- No element is lost, repeated or moved by the division into chunks. -/
theorem flatten_chunks {α : Type} (size : Nat) (as : List α) :
    (chunks size as).flatten = as :=
  flatten_chunksOfSucc (size - 1) as

theorem scanAll_flatten (rule : Rule) (chunks : List (List Occurrence)) :
    scanAll rule chunks.flatten = (chunks.map (scanAll rule)).flatten := by
  induction chunks with
  | nil => rfl
  | cons chunk chunks ih =>
    rw [List.flatten_cons, List.map_cons, List.flatten_cons, ← ih]
    exact List.flatMap_append

/-! ## Slots -/

/-- Writing one result leaves the slots of other numbers as they are. -/
theorem getElem?_foldl_set_of_not_mem {α : Type} {i : Nat} (finished : List (Nat × α))
    (slots : List α) (h : ∀ v, (i, v) ∉ finished) :
    (finished.foldl (fun slots task => slots.set task.1 task.2) slots)[i]? = slots[i]? := by
  induction finished generalizing slots with
  | nil => rfl
  | cons task finished ih =>
    have hi : task.1 ≠ i := by
      rintro rfl
      exact h task.2 List.mem_cons_self
    rw [List.foldl_cons, ih _ fun v hv => h v (List.mem_cons_of_mem _ hv),
      List.getElem?_set_ne hi]

/-- After all writes a slot holds the one result that carries its number. -/
theorem getElem?_foldl_set_of_mem {α : Type} {i : Nat} {v : α} (finished : List (Nat × α))
    (slots : List α) (hv : (i, v) ∈ finished) (hunique : ∀ w, (i, w) ∈ finished → w = v)
    (hi : i < slots.length) :
    (finished.foldl (fun slots task => slots.set task.1 task.2) slots)[i]? = some v := by
  induction finished generalizing slots with
  | nil => cases hv
  | cons task finished ih =>
    rw [List.foldl_cons]
    by_cases hlater : (i, v) ∈ finished
    · refine ih _ hlater (fun w hw => hunique w (List.mem_cons_of_mem _ hw)) ?_
      rw [List.length_set]
      exact hi
    · -- the first task is the last one to write this slot
      have hnow : (i, v) = task := (List.mem_cons.mp hv).resolve_right hlater
      have hnever : ∀ w, (i, w) ∉ finished := by
        intro w hw
        rw [hunique w (List.mem_cons_of_mem _ hw)] at hw
        exact hlater hw
      rw [getElem?_foldl_set_of_not_mem _ _ hnever, ← hnow, List.getElem?_set_self hi]

theorem length_foldl_set {α : Type} (finished : List (Nat × α)) (slots : List α) :
    (finished.foldl (fun slots task => slots.set task.1 task.2) slots).length = slots.length := by
  induction finished generalizing slots with
  | nil => rfl
  | cons task finished ih => rw [List.foldl_cons, ih, List.length_set]

/-! ## Tasks -/

theorem mem_tasks_iff {rule : Rule} {chunkSize i : Nat} {os : List Occurrence}
    {v : List Violation} :
    (i, v) ∈ tasks rule chunkSize os ↔
      ∃ chunk, (chunks chunkSize os)[i]? = some chunk ∧ v = scanAll rule chunk := by
  simp only [tasks, List.mem_mapIdx, Prod.mk.injEq]
  constructor
  · rintro ⟨j, hj, rfl, rfl⟩
    exact ⟨_, List.getElem?_eq_getElem hj, rfl⟩
  · rintro ⟨chunk, hc, rfl⟩
    obtain ⟨hi, rfl⟩ := List.getElem?_eq_some_iff.mp hc
    exact ⟨i, hi, rfl, rfl⟩

theorem length_tasks (rule : Rule) (chunkSize : Nat) (os : List Occurrence) :
    (tasks rule chunkSize os).length = (chunks chunkSize os).length := by
  rw [tasks, List.length_mapIdx]

/-- However the tasks finish, the slots end up with the violations of the chunks in order. -/
theorem foldl_set_perm_tasks {rule : Rule} {chunkSize : Nat} {os : List Occurrence}
    {finished : List Finished} (h : finished.Perm (tasks rule chunkSize os)) :
    finished.foldl (fun slots task => slots.set task.1 task.2)
        (List.replicate (tasks rule chunkSize os).length []) =
      (chunks chunkSize os).map (scanAll rule) := by
  apply List.ext_getElem?
  intro i
  rw [List.getElem?_map]
  cases hc : (chunks chunkSize os)[i]? with
  | none =>
    have hi : (chunks chunkSize os).length ≤ i := List.getElem?_eq_none_iff.mp hc
    rw [Option.map_none, List.getElem?_eq_none_iff, length_foldl_set, List.length_replicate,
      length_tasks]
    exact hi
  | some chunk =>
    have hi : i < (chunks chunkSize os).length := (List.getElem?_eq_some_iff.mp hc).1
    rw [Option.map_some]
    refine getElem?_foldl_set_of_mem _ _ ?_ ?_ ?_
    · exact h.mem_iff.mpr (mem_tasks_iff.mpr ⟨chunk, hc, rfl⟩)
    · intro w hw
      obtain ⟨chunk', hc', rfl⟩ := mem_tasks_iff.mp (h.mem_iff.mp hw)
      rw [hc] at hc'
      cases hc'
      rfl
    · rw [List.length_replicate, length_tasks]
      exact hi

theorem merge_perm_tasks {rule : Rule} {chunkSize : Nat} {os : List Occurrence}
    {finished : List Finished} (h : finished.Perm (tasks rule chunkSize os)) :
    merge (tasks rule chunkSize os).length finished = scanAll rule os := by
  rw [merge, foldl_set_perm_tasks h, ← scanAll_flatten, flatten_chunks]

/-- What a parallel scan may return: the results of its tasks, merged after they have finished in
some order. -/
def MayReturn (rule : Rule) (chunkSize : Nat) (os : List Occurrence) (found : List Violation) :
    Prop :=
  ∃ finished : List Finished, finished.Perm (tasks rule chunkSize os) ∧
    found = merge (tasks rule chunkSize os).length finished

theorem mayReturn_iff {rule : Rule} {chunkSize : Nat} {os : List Occurrence}
    {found : List Violation} : MayReturn rule chunkSize os found ↔ found = scanAll rule os := by
  constructor
  · rintro ⟨finished, h, rfl⟩
    exact merge_perm_tasks h
  · rintro rfl
    exact ⟨tasks rule chunkSize os, List.Perm.refl _, (merge_perm_tasks (List.Perm.refl _)).symm⟩

/-- A scan whose tasks finish as `arrange` says is one of the possible parallel scans. -/
theorem mayReturn_scanParallel {arrange : List Finished → List Finished}
    (hpermutes : ∀ finished, (arrange finished).Perm finished) (rule : Rule) (chunkSize : Nat)
    (os : List Occurrence) :
    MayReturn rule chunkSize os (scanParallel arrange rule chunkSize os) :=
  ⟨arrange (tasks rule chunkSize os), hpermutes _, rfl⟩

end AttributeLint.Scan

namespace AttributeLint.Analysis

/-! ## Runs -/

/-- A scanner that always returns what a parallel scan may return is the plain scanner. -/
theorem eq_scanAll_of_mayReturn {chunkSize : Nat} {scanner : Scanner}
    (h : ∀ rule os, Scan.MayReturn rule chunkSize os (scanner rule os)) :
    scanner = Scan.scanAll := by
  funext rule os
  exact Scan.mayReturn_iff.mp (h rule os)

/-- Parallel scans and runs return what plain ones return, for every chunk size and every order in
which tasks finish. In the last part each scan of a run has an order of its own. -/
theorem runParallel_eq_run (arrange : List Scan.Finished → List Scan.Finished)
    (hpermutes : ∀ finished, (arrange finished).Perm finished) (chunkSize : Nat) :
    (∀ rule os, Scan.scanParallel arrange rule chunkSize os = Scan.scanAll rule os) ∧
    (∀ registry c, runParallel arrange chunkSize registry c = run registry c) ∧
    ∀ scanner : Scanner, (∀ rule os, Scan.MayReturn rule chunkSize os (scanner rule os)) →
      ∀ registry c, (analyzeWith scanner registry c).map result = run registry c := by
  have hplain : (fun rule os => Scan.scanParallel arrange rule chunkSize os) = Scan.scanAll :=
    eq_scanAll_of_mayReturn fun rule os =>
      Scan.mayReturn_scanParallel hpermutes rule chunkSize os
  refine ⟨?_, ?_, ?_⟩
  · intro rule os
    exact congrFun (congrFun hplain rule) os
  · intro registry c
    rw [runParallel, analyzeParallel, hplain]
    rfl
  · intro scanner h registry c
    rw [eq_scanAll_of_mayReturn h]
    rfl

/-- Three strings in chunks of one, whose tasks finish in the opposite order. -/
theorem runParallel_eq_run_reverse :
    (∀ finished : List Scan.Finished, finished.reverse.Perm finished) ∧
    Scan.scanParallel List.reverse .errorAttribute 0
        [⟨⟨0, 0⟩, 3, "a?b?"⟩, ⟨⟨0, 0⟩, 9, "ok"⟩, ⟨⟨0, 1⟩, 5, "?"⟩] =
      [⟨⟨0, 0⟩, 3, '?', "a?b?", 1⟩, ⟨⟨0, 0⟩, 4, '?', "a?b?", 3⟩, ⟨⟨0, 1⟩, 5, '?', "?", 0⟩] := by
  have hpermutes (finished : List Scan.Finished) : finished.reverse.Perm finished :=
    List.reverse_perm finished
  refine ⟨hpermutes, ?_⟩
  rw [(runParallel_eq_run List.reverse hpermutes 0).1]
  decide

end AttributeLint.Analysis

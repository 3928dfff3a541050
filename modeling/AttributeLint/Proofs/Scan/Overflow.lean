import AttributeLint.Proofs.Scan.Completion
import AttributeLint.Proofs.Text.Decimal
import AttributeLint.Proofs.Traversal

/-!
# Overflow — when checked addition of places has a result

A scan with checked addition takes the steps of the plain scan, and it ends at the first place that
is too large for a word. So it has a result exactly if all places of the plain scan fit into words
(`InWords`), and it is the result of the plain scan then (`scan?_eq`). The same is true of several
strings, whether they are scanned one after the other or in chunks, and of whole analyses
(`Analysis.analyzeCheckedWith_eq`). All places fit if the start of the declaration and the length
of the string have a sum of `2 ^ 64` at most (`inWords_scan`).
-/

namespace AttributeLint.Scan

/-- The places of the violations fit into words of 64 bits. -/
def InWords (vs : List Violation) : Prop :=
  ∀ v ∈ vs, v.position < 2 ^ 64

instance : DecidablePred InWords := fun vs =>
  inferInstanceAs (Decidable (∀ v ∈ vs, v.position < 2 ^ 64))

variable {rule : Rule} {o : Occurrence} {os : List Occurrence} {v : Violation}

theorem inWords_cons {vs : List Violation} :
    InWords (v :: vs) ↔ v.position < 2 ^ 64 ∧ InWords vs :=
  List.forall_mem_cons

theorem inWords_flatten {parts : List (List Violation)} :
    InWords parts.flatten ↔ ∀ vs ∈ parts, InWords vs := by
  simp only [InWords, List.mem_flatten]
  exact ⟨fun h vs hvs v hv => h v ⟨vs, hvs, hv⟩, fun h v ⟨vs, hvs, hv⟩ => h vs hvs v hv⟩

/-! ## One string -/

/-- The checked scan has the result of the plain one, if all places of that fit into words. -/
theorem scanFrom?_eq (rule : Rule) (o : Occurrence) (number index : Nat) (cs : List Char) :
    scanFrom? rule o number index cs =
      if InWords (scanFrom rule o number index cs) then some (scanFrom rule o number index cs)
      else none := by
  induction cs generalizing number index with
  | nil => simp [scanFrom?, scanFrom, InWords]
  | cons c cs ih =>
    rw [scanFrom?, scanFrom]
    by_cases hc : rule.disallows c
    · rw [if_pos hc, if_pos hc, ih, place?, if_congr Text.le_maxNumber_iff rfl rfl,
        if_congr inWords_cons rfl rfl]
      by_cases hplace : o.targetStart + offset rule.positionMode number index < 2 ^ 64
      · by_cases hrest : InWords (scanFrom rule o (number + 1) (index + 1) cs)
        · rw [if_pos hplace, if_pos hrest, if_pos (And.intro hplace hrest)]
          rfl
        · rw [if_pos hplace, if_neg hrest, if_neg fun h => hrest (And.right h)]
          rfl
      · rw [if_neg hplace, if_neg fun h => hplace (And.left h)]
        rfl
    · rw [if_neg hc, if_neg hc, ih]

theorem scan?_eq (rule : Rule) (o : Occurrence) :
    scan? rule o = if InWords (scan rule o) then some (scan rule o) else none :=
  scanFrom?_eq rule o 0 0 o.text.toList

/-- Violations lie behind the start of the declaration, each by less than the characters up to
it. -/
theorem position_of_mem_scanFrom {number index : Nat} {cs : List Char}
    (hv : v ∈ scanFrom rule o number index cs) (hle : number ≤ index) :
    o.targetStart ≤ v.position ∧ v.position < o.targetStart + index + cs.length := by
  induction cs generalizing number index with
  | nil => cases hv
  | cons c cs ih =>
    rw [List.length_cons]
    have hoffset : offset rule.positionMode number index ≤ index := by
      cases rule.positionMode with
      | violationCount => exact hle
      | characterIndex => exact Nat.le_refl index
    rw [scanFrom] at hv
    split at hv
    · rcases List.mem_cons.mp hv with rfl | hv
      · dsimp only
        omega
      · have := ih hv (by omega)
        omega
    · have := ih hv (by omega)
      omega

theorem position_of_mem_scan (hv : v ∈ scan rule o) :
    o.targetStart ≤ v.position ∧ v.position < o.targetStart + o.text.length :=
  position_of_mem_scanFrom hv (Nat.le_refl 0)

/-- No addition overflows in a string that begins early enough. -/
theorem inWords_scan (h : o.targetStart + o.text.length ≤ 2 ^ 64) (rule : Rule) :
    InWords (scan rule o) := by
  intro v hv
  have := (position_of_mem_scan hv).2
  omega

/-! ## Several strings -/

theorem scanAll?_eq (rule : Rule) (os : List Occurrence) :
    scanAll? rule os = if InWords (scanAll rule os) then some (scanAll rule os) else none := by
  have hmapM : os.mapM (scan? rule) = if ∀ o ∈ os, InWords (scan rule o) then
      some (os.map (scan rule)) else none :=
    mapM_eq_ite (fun _ => none) (fun _ => rfl) os fun o _ => scan?_eq rule o
  have hall : (∀ o ∈ os, InWords (scan rule o)) ↔ InWords (scanAll rule os) := by
    rw [scanAll, List.flatMap_def, inWords_flatten, List.forall_mem_map]
  rw [scanAll?, hmapM, apply_ite (Option.map List.flatten), if_congr hall rfl rfl]
  rfl

theorem flatten_map_snd_tasks (rule : Rule) (chunkSize : Nat) (os : List Occurrence) :
    ((tasks rule chunkSize os).map (·.2)).flatten = scanAll rule os := by
  have hresults : (tasks rule chunkSize os).map (·.2) =
      ((chunks chunkSize os).zipIdx.map (·.1)).map (scanAll rule) := by
    rw [tasks, List.mapIdx_eq_zipIdx_map, List.map_map, List.map_map]
    rfl
  rw [hresults, List.zipIdx_map_fst, ← scanAll_flatten, flatten_chunks]

/-- All tasks finish, if all places of the plain scan fit into words. -/
theorem tasks?_eq (rule : Rule) (chunkSize : Nat) (os : List Occurrence) :
    tasks? rule chunkSize os =
      if InWords (scanAll rule os) then some (tasks rule chunkSize os) else none := by
  have hchecked : ((chunks chunkSize os).mapIdx fun i chunk =>
      (scanAll? rule chunk).map (i, ·)) =
      (tasks rule chunkSize os).map fun task => if InWords task.2 then some task else none := by
    rw [tasks, List.mapIdx_eq_zipIdx_map, List.mapIdx_eq_zipIdx_map, List.map_map]
    refine List.map_congr_left ?_
    rintro ⟨chunk, i⟩ -
    show (scanAll? rule chunk).map (i, ·) = _
    rw [scanAll?_eq, apply_ite (Option.map _)]
    rfl
  have hmapM : ((tasks rule chunkSize os).mapM fun task =>
      if InWords task.2 then some task else none) =
      if ∀ task ∈ tasks rule chunkSize os, InWords task.2 then
        some ((tasks rule chunkSize os).map id) else none :=
    mapM_eq_ite (fun γ => (none : Option γ)) (fun _ => rfl) _ fun task _ => rfl
  have hall : (∀ task ∈ tasks rule chunkSize os, InWords task.2) ↔
      InWords (scanAll rule os) := by
    rw [← flatten_map_snd_tasks rule chunkSize os, inWords_flatten, List.forall_mem_map]
  rw [tasks?, hchecked, List.mapM_map]
  refine hmapM.trans ?_
  rw [if_congr hall rfl rfl, List.map_id]

/-- A scan in chunks has a result, if all places of the plain scan fit into words. -/
theorem scanParallel?_eq (arrange : List Finished → List Finished) (rule : Rule) (chunkSize : Nat)
    (os : List Occurrence) :
    scanParallel? arrange rule chunkSize os =
      if InWords (scanAll rule os) then some (scanParallel arrange rule chunkSize os)
      else none := by
  rw [scanParallel?, tasks?_eq, apply_ite (Option.map _)]
  rfl

end AttributeLint.Scan

namespace AttributeLint.Analysis

open Scan

/-! ## Analyses -/

/-- The scanner finds what a plain scan finds, unless a place does not fit into a word. -/
def Checks (scanner : CheckedScanner) : Prop :=
  ∀ rule os, scanner rule os = if InWords (scanAll rule os) then some (scanAll rule os) else none

theorem checks_scanAll? : Checks scanAll? :=
  scanAll?_eq

/-- Each scan may have an order of its own in which its tasks finish. -/
theorem checks_scanParallel? {arrange : Rule → List Occurrence → List Finished → List Finished}
    (hpermutes : ∀ rule os finished, (arrange rule os finished).Perm finished) (chunkSize : Nat) :
    Checks fun rule os => scanParallel? (arrange rule os) rule chunkSize os := by
  intro rule os
  show scanParallel? (arrange rule os) rule chunkSize os = _
  rw [scanParallel?_eq,
    mayReturn_iff.mp (mayReturn_scanParallel (hpermutes rule os) rule chunkSize os)]

/-- All places that an analysis by the rule adds up fit into words. -/
def InWordsBy (rule : Rule) (c : Compilation) : Prop :=
  InWords (scanAll rule (Extraction.ofCompilation c rule.attributeName).occurrences)

instance (rule : Rule) (c : Compilation) : Decidable (InWordsBy rule c) :=
  inferInstanceAs (Decidable (InWords _))

variable {scanner : CheckedScanner} {c : Compilation} {rule : Rule} {found : List Diagnostic}

theorem ruleDiagnosticsChecked_eq (h : Checks scanner)
    (hfound : ruleDiagnostics scanAll c rule = .ok found) :
    ruleDiagnosticsChecked scanner c rule =
      if InWordsBy rule c then .ok found else .error .overflow := by
  have hreport : reportRule c rule (Extraction.ofCompilation c rule.attributeName)
      (scanAll rule (Extraction.ofCompilation c rule.attributeName).occurrences) = .ok found :=
    hfound
  have hscanner := h rule (Extraction.ofCompilation c rule.attributeName).occurrences
  by_cases hwords : InWordsBy rule c
  · simp only [ruleDiagnosticsChecked, hscanner.trans (if_pos hwords), hreport]
    rw [if_pos hwords]
    rfl
  · simp only [ruleDiagnosticsChecked, hscanner.trans (if_neg hwords)]
    rw [if_neg hwords]

/-- An analysis that cannot fail gives the same diagnostics with checked addition, if all places fit
into words. It overflows otherwise. -/
theorem analyzeCheckedWith_eq (h : Checks scanner) {registry : Registry}
    {found : Rule → List Diagnostic}
    (hfound : ∀ rule ∈ registry.enabledRules, ruleDiagnostics scanAll c rule = .ok (found rule)) :
    analyzeCheckedWith scanner registry c =
      if ∀ rule ∈ registry.enabledRules, InWordsBy rule c then
        .ok (registry.enabledRules.flatMap found)
      else .error .overflow := by
  have hmapM : registry.enabledRules.mapM (ruleDiagnosticsChecked scanner c) =
      if ∀ rule ∈ registry.enabledRules, InWordsBy rule c then
        .ok (registry.enabledRules.map found)
      else .error .overflow :=
    mapM_eq_ite (fun γ => (Except.error Failure.overflow : Except Failure γ)) (fun _ => rfl) _
      fun rule hrule => ruleDiagnosticsChecked_eq h (hfound rule hrule)
  rw [analyzeCheckedWith, hmapM, apply_ite (Except.map List.flatten), List.flatMap_def]
  rfl

end AttributeLint.Analysis

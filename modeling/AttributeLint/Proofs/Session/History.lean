import AttributeLint.Proofs.Analysis.Locality
import AttributeLint.Proofs.Scan.Completion
import AttributeLint.Session
import Mathlib.Data.List.Forall2

/-!
# History — what a session keeps of its past

A session goes over compilations step by step, and each step may scan plainly or in chunks whose
tasks finish in any order. The way it scans leaves no trace (`Way.advance_eq`). Of all steps so far
the session holds their number, the outcome of the last one, and the declaration that the first one
generated (`Reached`); one more step keeps this (`Reached.record`), and it compares its diagnostics
with those of the step before and of no other (`Reached.changed_record_iff`). So a session after any
steps is told by the last two (`after_append_singleton`).

With checked addition a step ends in an overflow if a place in its compilation does not fit into a
word (`Step.advanceChecked_eq`), and it makes no difference otherwise.
-/

namespace AttributeLint

/-! ## Reading alike -/

/-- What a reader sees of two diagnostics is the same. -/
structure ReadAlike (a b : Diagnostic) : Prop where
  ruleId : a.ruleId = b.ruleId
  severity : a.severity = b.severity
  message : a.message = b.message
  path : a.location.path = b.location.path
  span : a.location.span = b.location.span

theorem ReadAlike.inFile (file : FileId) (d : Diagnostic) : ReadAlike d (d.inFile file) :=
  ⟨rfl, rfl, rfl, rfl, rfl⟩

namespace Expected

variable {say : FileId → String → Usage → List Diagnostic}

theorem Local.readAlike (h : Local say) (file file' : FileId) (path : String) (u : Usage) :
    List.Forall₂ ReadAlike (say file path u) (say file' path u) := by
  rw [← h.moves file file', List.forall₂_map_right_iff, List.forall₂_same]
  exact fun d _ => .inFile file' d

theorem forall₂_flatMap {α β : Type} {R : β → β → Prop} {f g : α → List β} (xs : List α)
    (h : ∀ x, List.Forall₂ R (f x) (g x)) : List.Forall₂ R (xs.flatMap f) (xs.flatMap g) := by
  refine List.rel_flatMap (List.forall₂_same.mpr fun x _ => rfl) ?_
  rintro x _ rfl
  exact h x

/-- The identity of the source map does not show in what is said about the files. -/
theorem readAlike_overUsages (h : Local say) (id id' : Nat) (additions : List Addition) :
    List.Forall₂ ReadAlike (overUsages id additions say) (overUsages id' additions say) :=
  forall₂_flatMap _ fun (a, i) => forall₂_flatMap _ fun u => h.readAlike ⟨id, i⟩ ⟨id', i⟩ a.path u

theorem readAlike_ofRule (id id' : Nat) (additions : List Addition) (rule : Rule) :
    List.Forall₂ ReadAlike (ofRule id additions rule) (ofRule id' additions rule) := by
  rw [ofRule, ofRule]
  refine List.rel_append (readAlike_overUsages (local_ofUsage rule) id id' additions) ?_
  cases rule.malformed with
  | skip => exact .nil
  | report => exact readAlike_overUsages (local_ofMalformedUsage rule) id id' additions

/-- Nor does it show in whether the places fit into words. -/
theorem inWords_congr (id id' : Nat) (additions : List Addition) (rule : Rule) :
    InWords id additions rule ↔ InWords id' additions rule :=
  forall_mem_iff_of_forall₂ (readAlike_overUsages (local_ofUsage rule) id id' additions)
    fun d d' h => by rw [h.span]

end Expected

namespace Session

theorem sameReport_iff {a b : Diagnostic} : sameReport a b = true ↔ ReadAlike a b := by
  simp only [sameReport, Bool.and_eq_true, decide_eq_true_eq]
  constructor
  · rintro ⟨⟨⟨⟨hid, hseverity⟩, hmessage⟩, hpath⟩, hspan⟩
    exact ⟨hid, hseverity, hmessage, hpath, hspan⟩
  · rintro ⟨hid, hseverity, hmessage, hpath, hspan⟩
    exact ⟨⟨⟨⟨hid, hseverity⟩, hmessage⟩, hpath⟩, hspan⟩

/-- The comparison of two lists finds out whether they read alike from end to end. -/
theorem sameReports_iff {as bs : List Diagnostic} :
    sameReports as bs = true ↔ List.Forall₂ ReadAlike as bs := by
  induction as generalizing bs with
  | nil => cases bs <;> simp [sameReports]
  | cons a as ih =>
    cases bs with
    | nil => simp [sameReports]
    | cons b bs =>
      rw [sameReports, Bool.and_eq_true, sameReport_iff, ih, List.forall₂_cons]

/-! ## Steps -/

/-- A way to run over a compilation. -/
inductive Way where
  | plain
  /-- In chunks, by tasks that finish in the order that `arrange` puts them in. -/
  | arranged (chunkSize : Nat) (arrange : List Scan.Finished → List Scan.Finished)
      (hpermutes : ∀ finished, (arrange finished).Perm finished)
  /-- In chunks, by tasks that finish in an order of its own in each scan. -/
  | scattered (chunkSize : Nat)
      (arrange : Rule → List Occurrence → List Scan.Finished → List Scan.Finished)
      (hpermutes : ∀ rule os finished, (arrange rule os finished).Perm finished)

namespace Way

/-- Runs the rules over a compilation in the given way. -/
def advance : Way → Session → Compilation → Except UnknownFile Session
  | .plain, s, c => s.advance c
  | .arranged chunkSize arrange _, s, c => s.advanceParallel arrange chunkSize c
  | .scattered chunkSize arrange _, s, c =>
    (Analysis.analyzeWith (fun rule os => Scan.scanParallel (arrange rule os) rule chunkSize os)
      s.registry c).map s.record

/-- Runs the rules over a compilation in the given way, unless an addition overflows. -/
def advanceChecked : Way → Session → Compilation → Except Analysis.Failure Session
  | .plain, s, c => s.advanceChecked c
  | .arranged chunkSize arrange _, s, c => s.advanceParallelChecked arrange chunkSize c
  | .scattered chunkSize arrange _, s, c =>
    (Analysis.analyzeCheckedWith
      (fun rule os => Scan.scanParallel? (arrange rule os) rule chunkSize os) s.registry c).map
        s.record

/-- The way leaves no trace in the session. -/
theorem advance_eq (way : Way) (s : Session) (c : Compilation) :
    way.advance s c = s.advance c := by
  cases way with
  | plain => rfl
  | arranged chunkSize arrange hpermutes =>
    have hplain : (fun rule os => Scan.scanParallel arrange rule chunkSize os) = Scan.scanAll :=
      Analysis.eq_scanAll_of_mayReturn fun rule os =>
        Scan.mayReturn_scanParallel hpermutes rule chunkSize os
    rw [advance, advanceParallel, Analysis.analyzeParallel, hplain]
    rfl
  | scattered chunkSize arrange hpermutes =>
    have hplain : (fun rule os => Scan.scanParallel (arrange rule os) rule chunkSize os) =
        Scan.scanAll :=
      Analysis.eq_scanAll_of_mayReturn fun rule os =>
        Scan.mayReturn_scanParallel (hpermutes rule os) rule chunkSize os
    rw [advance, hplain]
    rfl

/-- Every way has a scanner that finds what a plain scan finds, unless an addition overflows. -/
theorem exists_checks (way : Way) : ∃ scanner, Analysis.Checks scanner ∧ ∀ s c,
    way.advanceChecked s c = (Analysis.analyzeCheckedWith scanner s.registry c).map s.record := by
  cases way with
  | plain => exact ⟨_, Analysis.checks_scanAll?, fun s c => rfl⟩
  | arranged chunkSize arrange hpermutes =>
    exact ⟨_, Analysis.checks_scanParallel? (fun _ _ => hpermutes) chunkSize, fun s c => rfl⟩
  | scattered chunkSize arrange hpermutes =>
    exact ⟨_, Analysis.checks_scanParallel? hpermutes chunkSize, fun s c => rfl⟩

end Way

/-- One step of a session: a compilation that is built by additions, and a way to run over it. -/
structure Step where
  way : Way
  id : Nat
  additions : List Addition

namespace Step

/-- The compilation of the step. -/
def compilation (step : Step) : Compilation :=
  .build step.id step.additions

/-- Takes the session one step further. -/
def advance (step : Step) (s : Session) : Except UnknownFile Session :=
  step.way.advance s step.compilation

/-- Takes the session one step further, unless an addition overflows. -/
def advanceChecked (step : Step) (s : Session) : Except Analysis.Failure Session :=
  step.way.advanceChecked s step.compilation

/-- All places that the step adds up fit into words of 64 bits. -/
def InWords (registry : Registry) (step : Step) : Prop :=
  ∀ rule ∈ registry.enabledRules, Expected.InWords step.id step.additions rule

instance (registry : Registry) : DecidablePred (InWords registry) := fun step =>
  inferInstanceAs
    (Decidable (∀ rule ∈ registry.enabledRules, Expected.InWords step.id step.additions rule))

/-- What the step should report. -/
def diagnostics (registry : Registry) (step : Step) : List Diagnostic :=
  registry.enabledRules.flatMap (Expected.ofRule step.id step.additions)

theorem analyze_compilation (registry : Registry) (step : Step) :
    Analysis.analyze registry step.compilation = .ok (step.diagnostics registry) :=
  Analysis.analyze_of_holds (Compilation.holds_build step.id step.additions) registry

/-- A step never fails. -/
theorem advance_eq (step : Step) (s : Session) :
    step.advance s = .ok (s.record (step.diagnostics s.registry)) := by
  rw [advance, Way.advance_eq, Session.advance, analyze_compilation]
  rfl

/-- With checked addition it fails, if a place does not fit into a word. -/
theorem advanceChecked_eq (step : Step) (s : Session) :
    step.advanceChecked s =
      if step.InWords s.registry then .ok (s.record (step.diagnostics s.registry))
      else .error .overflow := by
  obtain ⟨scanner, hscanner, hway⟩ := step.way.exists_checks
  have hanalyze : Analysis.analyzeCheckedWith scanner s.registry step.compilation =
      if step.InWords s.registry then .ok (step.diagnostics s.registry) else .error .overflow :=
    Analysis.analyzeCheckedWith_of_holds hscanner
      (Compilation.holds_build step.id step.additions) s.registry
  rw [advanceChecked, hway, hanalyze, apply_ite (Except.map s.record)]
  rfl

theorem inWords_congr (registry : Registry) (step : Step) (way : Way) (id : Nat) :
    InWords registry { step with way, id } ↔ step.InWords registry :=
  forall₂_congr fun rule _ => Expected.inWords_congr id step.id step.additions rule

/-- A step over the same additions reports alike. -/
theorem readAlike_diagnostics (registry : Registry) (step : Step) (way : Way) (id : Nat) :
    List.Forall₂ ReadAlike (step.diagnostics registry)
      (diagnostics registry { step with way, id }) :=
  Expected.forall₂_flatMap _ fun rule =>
    Expected.readAlike_ofRule step.id id step.additions rule

end Step

/-- The session after some steps from its start. -/
def after (registry : Registry) (steps : List Step) : Except UnknownFile Session :=
  steps.foldlM (fun s step => step.advance s) (start registry)

theorem after_append (registry : Registry) (earlier : List Step) (step : Step) :
    after registry (earlier ++ [step]) = after registry earlier >>= step.advance := by
  simp only [after, List.foldlM_append, List.foldlM_cons, List.foldlM_nil, bind_pure]

/-- The session after some steps from its start, unless an addition overflows in one of them. -/
def afterChecked (registry : Registry) (steps : List Step) : Except Analysis.Failure Session :=
  steps.foldlM (fun s step => step.advanceChecked s) (start registry)

/-! ## What is kept -/

/-- What a session holds of the steps so far: how many they are, and the outcome of the last. No
declaration is generated before the first step, and later steps keep the one that it generated. -/
structure Reached (registry : Registry) (steps : List Step) (s : Session) : Prop where
  rules : s.registry = registry
  generated : s.generated? = if steps.isEmpty then none else some .errorAttribute
  runs : s.runs = steps.length
  last : s.last? = steps.getLast?.map fun step => Analysis.result (step.diagnostics registry)

variable {registry : Registry} {steps : List Step} {s : Session}

theorem reached_start (registry : Registry) : Reached registry [] (start registry) :=
  ⟨rfl, rfl, rfl, rfl⟩

/-- The declaration that a step hands out is the same for all steps. -/
theorem Reached.generated_eq (h : Reached registry steps s) : s.generated = .errorAttribute := by
  rw [Session.generated, h.generated]
  split <;> rfl

theorem Reached.record (h : Reached registry steps s) (step : Step) :
    Reached registry (steps ++ [step]) (s.record (step.diagnostics registry)) where
  rules := h.rules
  generated := by
    rw [Session.record, h.generated_eq, if_neg (by simp)]
  runs := by
    show s.runs + 1 = _
    rw [h.runs, List.length_append, List.length_singleton]
  last := by
    rw [List.getLast?_concat, Session.record, h.generated_eq]
    rfl

/-- A step compares its diagnostics with those of the step before. -/
theorem Reached.changed_record_iff (h : Reached registry steps s) (step : Step) :
    (s.record (step.diagnostics registry)).changed = false ↔
      ∃ previous, steps.getLast? = some previous ∧
        List.Forall₂ ReadAlike (previous.diagnostics registry) (step.diagnostics registry) := by
  rw [Session.record, h.last]
  cases steps.getLast? with
  | none => simp
  | some previous =>
    show (!sameReports _ _) = false ↔ _
    rw [Bool.not_eq_false', sameReports_iff]
    simp [Analysis.result]

theorem Reached.advance (h : Reached registry steps s) (step : Step) :
    step.advance s = .ok (s.record (step.diagnostics registry)) := by
  rw [step.advance_eq, h.rules]

theorem Reached.advanceChecked (h : Reached registry steps s) (step : Step) :
    step.advanceChecked s = if step.InWords registry then
      .ok (s.record (step.diagnostics registry)) else .error .overflow := by
  rw [step.advanceChecked_eq, h.rules]

/-- More steps lead to a session that holds what it should; with checked addition they do, if all
places fit into words. -/
theorem Reached.foldlM_advance {earlier : List Step} (h : Reached registry earlier s)
    (steps : List Step) :
    ∃ s', steps.foldlM (fun s step => step.advance s) s = .ok s' ∧
      (steps.foldlM (fun s step => step.advanceChecked s) s =
        if ∀ step ∈ steps, step.InWords registry then .ok s' else .error .overflow) ∧
      Reached registry (earlier ++ steps) s' := by
  induction steps generalizing earlier s with
  | nil =>
    rw [List.append_nil]
    exact ⟨s, rfl, by simp [pure, Except.pure], h⟩
  | cons step steps ih =>
    obtain ⟨s', hs', hchecked, hreached⟩ := ih (h.record step)
    rw [List.append_assoc] at hreached
    refine ⟨s', ?_, ?_, hreached⟩
    · rw [List.foldlM_cons, h.advance]
      exact hs'
    · rw [List.foldlM_cons, h.advanceChecked, if_congr List.forall_mem_cons rfl rfl]
      by_cases hwords : step.InWords registry
      · rw [if_pos hwords]
        simp only [hwords, true_and]
        exact hchecked
      · rw [if_neg hwords, if_neg fun h => hwords (And.left h)]
        rfl

/-- No step of a session meets an unknown file, whatever came before it. -/
theorem exists_reached (registry : Registry) (steps : List Step) :
    ∃ s, after registry steps = .ok s ∧
      (afterChecked registry steps =
        if ∀ step ∈ steps, step.InWords registry then .ok s else .error .overflow) ∧
      Reached registry steps s :=
  (reached_start registry).foldlM_advance steps

/-- A session never meets an unknown file. After a step it has counted all steps, and it holds the
outcome of a run over the compilation of that step and the one declaration. It reports no change if
and only if there was a step before, and the diagnostics of the two compilations read alike from end
to end. A further step in any way over the same additions, registered anew under any identity,
reports no change. With checked addition all this is so, if the places in the compilations of all
steps fit into words; otherwise a step ends in an overflow. -/
theorem after_append_singleton (registry : Registry) (earlier : List Step) (step : Step) :
    ∃ s found, after registry (earlier ++ [step]) = .ok s ∧
      (afterChecked registry (earlier ++ [step]) =
        if (∀ previous ∈ earlier, previous.InWords registry) ∧ step.InWords registry then .ok s
        else .error .overflow) ∧
      s.runs = earlier.length + 1 ∧
      Analysis.analyze registry step.compilation = .ok found ∧
      Analysis.run registry step.compilation = .ok ⟨[.errorAttribute], found⟩ ∧
      s.generated? = some .errorAttribute ∧
      s.last? = some ⟨[.errorAttribute], found⟩ ∧
      (s.changed = false ↔ ∃ previous before, earlier.getLast? = some previous ∧
        Analysis.analyze registry previous.compilation = .ok before ∧
        List.Forall₂ ReadAlike before found) ∧
      ∀ way id, ∃ s', Step.advance { step with way, id } s = .ok s' ∧
        (Step.advanceChecked { step with way, id } s =
          if step.InWords registry then .ok s' else .error .overflow) ∧
        s'.changed = false := by
  obtain ⟨s, hs, -, hearlier⟩ := exists_reached registry earlier
  obtain ⟨s', hs', hchecked, hreached⟩ := exists_reached registry (earlier ++ [step])
  obtain rfl : s' = s.record (step.diagnostics registry) := by
    rw [after_append, hs] at hs'
    exact (Except.ok.inj ((hearlier.advance step).symm.trans hs')).symm
  refine ⟨_, step.diagnostics registry, hs', ?checked, ?runs, step.analyze_compilation registry,
    ?run, ?generated, ?last, ?changed, fun way id => ?again⟩
  case checked =>
    have hwords : (∀ taken ∈ (earlier ++ [step] : List Step), taken.InWords registry) ↔
        (∀ previous ∈ earlier, previous.InWords registry) ∧ step.InWords registry := by
      rw [List.forall_mem_append, List.forall_mem_singleton]
    rw [hchecked, if_congr hwords rfl rfl]
  case runs => rw [hreached.runs, List.length_append, List.length_singleton]
  case run =>
    rw [Analysis.run, step.analyze_compilation]
    rfl
  case generated => rw [hreached.generated, if_neg (by simp)]
  case last =>
    rw [hreached.last, List.getLast?_concat]
    rfl
  case changed =>
    rw [hearlier.changed_record_iff]
    constructor
    · rintro ⟨previous, hprevious, hread⟩
      exact ⟨previous, _, hprevious, previous.analyze_compilation registry, hread⟩
    · rintro ⟨previous, before, hprevious, hbefore, hread⟩
      rw [previous.analyze_compilation] at hbefore
      cases hbefore
      exact ⟨previous, hprevious, hread⟩
  case again =>
    refine ⟨_, hreached.advance { step with way, id }, ?_, ?_⟩
    · rw [hreached.advanceChecked, if_congr (step.inWords_congr registry way id) rfl rfl]
    · rw [hreached.changed_record_iff]
      exact ⟨step, List.getLast?_concat, step.readAlike_diagnostics registry way id⟩

/-- The way back to what was reported earlier is a change: the step before counts, and no other. -/
example :
    let file : Addition := .given "a.cs" "class A" [⟨"Error", 0, [⟨.positional, .string "?"⟩]⟩]
    let tenth : Way := .arranged 10 List.reverse List.reverse_perm
    let steps : List Step := [⟨.plain, 0, [file]⟩, ⟨tenth, 1, []⟩, ⟨tenth, 2, [file]⟩]
    (after .builtin steps).map (·.changed) = .ok true ∧
      (after .builtin (steps ++ [⟨.plain, 3, [file]⟩])).map (·.changed) = .ok false := by
  decide +kernel

end Session

end AttributeLint

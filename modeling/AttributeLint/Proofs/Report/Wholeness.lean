import AttributeLint.Proofs.Source.Descent
import AttributeLint.Proofs.Traversal
import AttributeLint.Report

/-!
# Wholeness — reports that give every diagnostic or none

A report looks up one handle for each thing that it is about. If the source map knows all of them
(`Known`), there is one diagnostic for each thing, in order; if not, the report is the failure for
the first handle that the map does not know (`FirstUnknown`), and no diagnostic is handed over. This
is shown once for all reports (`mapM_diagnosed_eq_ok_iff`, `mapM_diagnosed_eq_error_iff`), as
violations and usages without a string differ only in what is put into the message.
-/

namespace AttributeLint

namespace SourceMap

variable {sources : SourceMap} {file : FileId} {files : List FileId} {e : UnknownFile}

/-- The handle leads to a file of the map. -/
def Known (sources : SourceMap) (file : FileId) : Prop :=
  ∃ source, sources.resolve file = .ok source

/-- The file is the first of several that the map does not know. -/
def FirstUnknown (sources : SourceMap) (files : List FileId) (file : FileId) : Prop :=
  ∃ before after, files = before ++ file :: after ∧ (∀ f ∈ before, sources.Known f) ∧
    ¬ sources.Known file

/-- A map knows the handles with its identity that count fewer files than there are. -/
theorem known_iff : sources.Known file ↔
    file.map = sources.id ∧ file.index < sources.files.length := by
  constructor
  · rintro ⟨source, hfound⟩
    obtain ⟨hown, hthere⟩ := resolve_eq_ok_iff.mp hfound
    exact ⟨hown, (List.getElem?_eq_some_iff.mp hthere).1⟩
  · rintro ⟨hown, hinside⟩
    exact ⟨_, resolve_eq_ok_iff.mpr ⟨hown, List.getElem?_eq_getElem hinside⟩⟩

instance (sources : SourceMap) (file : FileId) : Decidable (sources.Known file) :=
  decidable_of_iff _ known_iff.symm

/-- A handle that does not lead to a file is named in the failure. -/
theorem resolve_unknown_iff : sources.resolve file = .error e ↔
    ¬ sources.Known file ∧ e = ⟨file⟩ := by
  rw [Known, resolve]
  cases sources.get? file with
  | none => simp [eq_comm]
  | some source => simp

/-- There is a first unknown file if there is any. -/
theorem exists_firstUnknown (h : ∃ file ∈ files, ¬ sources.Known file) :
    ∃ file, sources.FirstUnknown files file := by
  induction files with
  | nil =>
    obtain ⟨file, hmem, -⟩ := h
    cases hmem
  | cons file files ih =>
    by_cases hknown : sources.Known file
    · obtain ⟨f, hmem, hunknown⟩ := h
      rcases List.mem_cons.mp hmem with rfl | hmem
      · exact absurd hknown hunknown
      · obtain ⟨first, before, after, rfl, hothers, hunknown⟩ := ih ⟨f, hmem, hunknown⟩
        exact ⟨first, file :: before, after, rfl,
          List.forall_mem_cons.mpr ⟨hknown, hothers⟩, hunknown⟩
    · exact ⟨file, [], files, rfl, fun f hmem => absurd hmem List.not_mem_nil, hknown⟩

end SourceMap

namespace Report

open SourceMap

variable {sources : SourceMap} {d : Descriptor} {file : FileId} {position : Nat}
  {arguments : List String} {x : Diagnostic} {new collected : List Diagnostic} {e : UnknownFile}

/-- What a diagnostic says: the words of the descriptor with some arguments in the message, and a
place of one byte in a file of the map. -/
structure Tells (sources : SourceMap) (d : Descriptor) (file : FileId) (position : Nat)
    (arguments : List String) (x : Diagnostic) : Prop where
  ruleId : x.ruleId = d.id
  title : x.title = d.title
  message : x.message = d.format arguments
  severity : x.severity = d.severity
  span : x.location.file = file ∧ x.location.span = { start := position, length := 1 }
  path : ∃ source, sources.resolve file = .ok source ∧ x.location.path = source.path

/-! ## One diagnostic -/

theorem diagnosed_eq_ok_iff :
    (locate sources file position).map (diagnose d arguments) = .ok x ↔
      Tells sources d file position arguments x := by
  rw [locate]
  cases hfound : sources.resolve file with
  | error e =>
    constructor
    · intro h
      cases h
    · intro h
      obtain ⟨source, hresolved, -⟩ := h.path
      rw [hfound] at hresolved
      cases hresolved
  | ok source =>
    constructor
    · intro h
      cases h
      exact ⟨rfl, rfl, rfl, rfl, ⟨rfl, rfl⟩, source, hfound, rfl⟩
    · rintro ⟨hid, htitle, hmessage, hseverity, ⟨hfile, hspan⟩, source', hresolved, hpath⟩
      rw [hfound] at hresolved
      cases hresolved
      obtain ⟨_, _, _, _, ⟨_, _, _⟩⟩ := x
      cases hid
      cases htitle
      cases hmessage
      cases hseverity
      cases hfile
      cases hspan
      cases hpath
      rfl

theorem exists_diagnosed_eq_ok_iff :
    (∃ x, (locate sources file position).map (diagnose d arguments) = .ok x) ↔
      sources.Known file := by
  rw [locate, Known]
  cases sources.resolve file with
  | error e => simp [Except.map]
  | ok source => simp [Except.map]

theorem diagnosed_eq_error_iff :
    (locate sources file position).map (diagnose d arguments) = .error e ↔
      ¬ sources.Known file ∧ e = ⟨file⟩ := by
  rw [← resolve_unknown_iff, locate]
  cases sources.resolve file with
  | error e' => simp [Except.map]
  | ok source => simp [Except.map]

/-! ## Many diagnostics -/

section Many

variable {α : Type} {xs : List α} {fileOf : α → FileId} {positionOf : α → Nat}
  {argumentsOf : α → List String}

/-- One diagnostic each, in order. -/
theorem mapM_diagnosed_eq_ok_iff :
    xs.mapM (fun a => (locate sources (fileOf a) (positionOf a)).map (diagnose d (argumentsOf a)))
        = .ok new ↔
      List.Forall₂ (fun a => Tells sources d (fileOf a) (positionOf a) (argumentsOf a)) xs new := by
  simp only [mapM_eq_ok_iff, diagnosed_eq_ok_iff]

/-- The failure is that of the first file that the map does not know. -/
theorem mapM_diagnosed_eq_error_iff :
    xs.mapM (fun a => (locate sources (fileOf a) (positionOf a)).map (diagnose d (argumentsOf a)))
        = .error e ↔
      sources.FirstUnknown (xs.map fileOf) e.file := by
  rw [mapM_eq_error_iff]
  simp only [exists_diagnosed_eq_ok_iff, diagnosed_eq_error_iff]
  constructor
  · rintro ⟨before, a, after, rfl, hknown, hunknown, rfl⟩
    refine ⟨before.map fileOf, after.map fileOf, List.map_append, ?_, hunknown⟩
    exact List.forall_mem_map.mpr hknown
  · rintro ⟨before, after, hsplit, hknown, hunknown⟩
    obtain ⟨before, rest, rfl, rfl, hrest⟩ := List.map_eq_append_iff.mp hsplit
    obtain ⟨a, after, rfl, hfile, rfl⟩ := List.map_eq_cons_iff.mp hrest
    refine ⟨before, a, after, rfl, List.forall_mem_map.mp hknown, ?_, ?_⟩
    · rwa [hfile]
    · rw [hfile]

theorem exists_mapM_diagnosed (hknown : ∀ a ∈ xs, sources.Known (fileOf a)) :
    ∃ new, xs.mapM (fun a => (locate sources (fileOf a) (positionOf a)).map
      (diagnose d (argumentsOf a))) = .ok new := by
  cases hresult : xs.mapM fun a =>
      (locate sources (fileOf a) (positionOf a)).map (diagnose d (argumentsOf a)) with
  | ok new => exact ⟨new, rfl⟩
  | error e =>
    obtain ⟨before, after, hsplit, -, hunknown⟩ := mapM_diagnosed_eq_error_iff.mp hresult
    have hmem : e.file ∈ xs.map fileOf := by
      rw [hsplit]
      exact List.mem_append_right _ List.mem_cons_self
    obtain ⟨a, ha, hfile⟩ := List.mem_map.mp hmem
    rw [← hfile] at hunknown
    exact absurd (hknown a ha) hunknown

end Many

/-! ## Handing over -/

/-- Diagnostics are accepted behind the ones that are there. -/
theorem foldl_accept (new collected : List Diagnostic) :
    new.foldl accept collected = collected ++ new := by
  induction new generalizing collected with
  | nil => exact (List.append_nil collected).symm
  | cons x new ih => rw [List.foldl_cons, ih, accept, List.append_assoc, List.singleton_append]

/-- If the map knows the files of all violations, one diagnostic for each of them is handed over, in
order and behind what was collected. Otherwise the report is the failure for the first file that the
map does not know, and what was collected stays as it was. Reports on usages without a string give
diagnostics and fail on the same conditions. -/
theorem report_whole_or_unknown (sources : SourceMap) (d d' : Descriptor) (vs : List Violation)
    (ms : List MalformedUsage) (collected : List Diagnostic) :
    ((∀ v ∈ vs, sources.Known v.file) →
      ∃ new, List.Forall₂ (fun v => Tells sources d v.file v.position
          [String.singleton v.character, v.text]) vs new ∧
        violations sources d vs = .ok new ∧
        handOver sources d vs collected = (collected ++ new, .ok vs.length)) ∧
    ((∃ v ∈ vs, ¬ sources.Known v.file) →
      ∃ file, sources.FirstUnknown (vs.map (·.file)) file ∧
        violations sources d vs = .error ⟨file⟩ ∧
        handOver sources d vs collected = (collected, .error ⟨file⟩)) ∧
    ((∀ m ∈ ms, sources.Known m.file) →
      ∃ new, List.Forall₂ (fun m => Tells sources d' m.file m.targetStart
          [m.name, m.reason.message]) ms new ∧
        malformed sources d' ms = .ok new) ∧
    ((∃ m ∈ ms, ¬ sources.Known m.file) →
      ∃ file, sources.FirstUnknown (ms.map (·.file)) file ∧
        malformed sources d' ms = .error ⟨file⟩) := by
  refine ⟨fun hknown => ?_, fun ⟨v, hv, hunknown⟩ => ?_, fun hknown => ?_,
    fun ⟨m, hm, hunknown⟩ => ?_⟩
  · obtain ⟨new, hnew⟩ : ∃ new, violations sources d vs = .ok new := exists_mapM_diagnosed hknown
    have heach := mapM_diagnosed_eq_ok_iff.mp hnew
    refine ⟨new, heach, hnew, ?_⟩
    rw [handOver, hnew]
    simp only [foldl_accept, heach.length_eq]
  · obtain ⟨file, hfirst⟩ := exists_firstUnknown ⟨v.file, List.mem_map_of_mem hv, hunknown⟩
    have hfails : violations sources d vs = .error ⟨file⟩ := mapM_diagnosed_eq_error_iff.mpr hfirst
    refine ⟨file, hfirst, hfails, ?_⟩
    rw [handOver, hfails]
  · obtain ⟨new, hnew⟩ : ∃ new, malformed sources d' ms = .ok new := exists_mapM_diagnosed hknown
    exact ⟨new, mapM_diagnosed_eq_ok_iff.mp hnew, hnew⟩
  · obtain ⟨file, hfirst⟩ := exists_firstUnknown ⟨m.file, List.mem_map_of_mem hm, hunknown⟩
    exact ⟨file, hfirst, mapM_diagnosed_eq_error_iff.mpr hfirst⟩

/-- Two violations alike are reported twice. A handle of another map is the first unknown one
although it counts a file that this map has, and there is one more behind it that counts too
many. -/
theorem report_whole_or_unknown_foreign :
    let sources := (SourceMap.empty 0).add "a.cs" "[Error(\"?\")] class C;"
    let violation (file : FileId) : Violation :=
      { file, position := 0, character := '?', text := "?", index := 0 }
    let usage (file : FileId) : MalformedUsage :=
      { file, targetStart := 0, name := "Error", reason := .noArguments }
    (∃ new, List.Forall₂ (fun v => Tells sources .illegalCharacter v.file v.position
          [String.singleton v.character, v.text])
          [violation ⟨0, 0⟩, violation ⟨0, 0⟩] new ∧
        handOver sources .illegalCharacter [violation ⟨0, 0⟩, violation ⟨0, 0⟩] [] =
          ([] ++ new, .ok 2)) ∧
      (∃ file, sources.FirstUnknown [⟨0, 0⟩, ⟨1, 0⟩, ⟨0, 1⟩] file ∧
        handOver sources .illegalCharacter
          [violation ⟨0, 0⟩, violation ⟨1, 0⟩, violation ⟨0, 1⟩] [] = ([], .error ⟨file⟩)) ∧
      (∃ new, malformed sources .malformedArguments [usage ⟨0, 0⟩] = .ok new) ∧
      ∃ file, sources.FirstUnknown [⟨0, 1⟩, ⟨1, 0⟩] file ∧
        malformed sources .malformedArguments [usage ⟨0, 1⟩, usage ⟨1, 0⟩] = .error ⟨file⟩ := by
  intro sources violation usage
  have halike := report_whole_or_unknown sources .illegalCharacter .malformedArguments
    [violation ⟨0, 0⟩, violation ⟨0, 0⟩] [usage ⟨0, 0⟩] []
  have hmixed := report_whole_or_unknown sources .illegalCharacter .malformedArguments
    [violation ⟨0, 0⟩, violation ⟨1, 0⟩, violation ⟨0, 1⟩] [usage ⟨0, 1⟩, usage ⟨1, 0⟩] []
  refine ⟨?_, ?_, ?_, ?_⟩
  · obtain ⟨new, heach, -, hhanded⟩ := halike.1 (by decide)
    exact ⟨new, heach, hhanded⟩
  · obtain ⟨file, hfirst, -, hhanded⟩ := hmixed.2.1 (by decide)
    exact ⟨file, hfirst, hhanded⟩
  · obtain ⟨new, -, hgiven⟩ := halike.2.2.1 (by decide)
    exact ⟨new, hgiven⟩
  · exact hmixed.2.2.2 (by decide)

end Report

end AttributeLint

import AttributeLint.Proofs.Analysis.Places
import AttributeLint.Proofs.Text.Inside
import AttributeLint.Proofs.Usage.Extent

/-!
# Spans — what is reported lies inside its file

A violation is placed at the start of a declaration plus a number of violations or characters, and
nothing is looked at in the source there. The place is inside the source all the same, and even in
front of the end of the list, because a string has more bytes in the source than it has characters
(`Usage.Fits`). So the end of every span is inside the file, the place is not taken for the end of
the text when its line and column are told, and no sum exceeds the length of the file. So checked
addition makes no difference to the analysis of such files (`analyzeChecked_ofSources`).
-/

namespace AttributeLint

open Text Token

/-! ## Violations -/

namespace Usage

variable {file : FileId} {u : Usage} {o : Occurrence} {stop : Nat}

/-- The string to check is the value of an argument. -/
theorem exists_argument_of_occurrence? (h : Extraction.occurrence? (file, u) = some o) :
    o.targetStart = u.targetStart ∧ ∃ argument ∈ u.arguments, argument.value = .string o.text := by
  rw [Extraction.occurrence?] at h
  rcases u.singleString_cases with ⟨binding, text, hc, hs⟩ | ⟨_, reason, hs, _⟩
  · simp only [hs] at h
    cases h
    have hmem : { binding, value := .string text } ∈ u.constructorArguments := by
      rw [hc]
      exact List.mem_cons_self
    exact ⟨rfl, _, List.mem_of_mem_filter hmem, rfl⟩
  · simp only [hs] at h
    cases h

/-- What a scan finds in the string of a usage is where the usage reaches. -/
theorem Fits.position (h : u.Fits stop) (ho : Extraction.occurrence? (file, u) = some o)
    {rule : Rule} {v : Violation} (hv : v ∈ Scan.scan rule o) :
    u.targetStart ≤ v.position ∧ v.position < stop := by
  obtain ⟨htarget, argument, hargument, htext⟩ := exists_argument_of_occurrence? ho
  have hfits := h.strings argument hargument o.text htext
  have hscan := Scan.position_of_mem_scan hv
  omega

end Usage

/-! ## Diagnostics -/

/-- The span of the diagnostic ends inside the file, its place is told without taking it for the end
of the text, and its end is the same in words that can hold the length of the file. -/
structure Diagnostic.Inside (file : SourceFile) (d : Diagnostic) : Prop where
  stop_le : d.location.span.stop ≤ file.size
  unclamped : Unclamped file.text.toList d.location.span.start
  adds : ∀ bits, file.size < 2 ^ bits → AddsIn bits d.location.span.start d.location.span.length

theorem Diagnostic.inside_of_start_lt {file : SourceFile} {d : Diagnostic} {path : String}
    {start : Nat} (hlocation : d.location = Expected.place file.id path start)
    (hstart : start < file.size) : d.Inside file := by
  have hspan : d.location.span = { start, length := 1 } := by
    rw [hlocation]
    rfl
  have hstop : d.location.span.stop ≤ file.size := by
    rw [hspan]
    exact hstart
  refine ⟨hstop, ?_, fun bits hbits => ?_⟩
  · rw [hspan]
    exact unclamped_iff.mpr (Nat.le_of_lt hstart)
  · exact addsIn_iff.mpr (Nat.lt_of_le_of_lt hstop hbits)

namespace Analysis

/-- In files that are read from their texts, what a rule reports lies inside the file. -/
theorem inside_of_mem_ofRule {id : Nat} {sources : List (String × String)} {rule : Rule}
    {d : Diagnostic}
    (hd : d ∈ Expected.ofRule id (sources.map fun source => .parsed source.1 source.2) rule) :
    ∃ file, (Compilation.ofSources id sources).sources.resolve d.location.file = .ok file ∧
      d.Inside file := by
  obtain ⟨a, i, ha, u, hu, hd⟩ := Expected.exists_of_mem_ofRule hd
  have hresolve := (Compilation.holds_build id _).resolve ha
  rw [← Compilation.ofSources_eq_build] at hresolve
  obtain ⟨source, _, rfl⟩ : ∃ source ∈ sources, Addition.parsed source.1 source.2 = a :=
    List.mem_map.mp (List.fst_mem_of_mem_zipIdx ha)
  have hfits : u.Fits (width source.2.toList) := Usage.fits_of_mem_ofSource hu
  have hplace : ∃ start, d.location = Expected.place ⟨id, i⟩ source.1 start ∧
      start < width source.2.toList := by
    rcases hd with hd | hd
    · obtain ⟨o, ho, v, hv, hlocation⟩ := Expected.exists_violation_of_mem_ofUsage hd
      exact ⟨v.position, hlocation, (hfits.position ho hv).2⟩
    · exact ⟨u.targetStart, Expected.location_of_mem_ofMalformedUsage hd, hfits.target⟩
  obtain ⟨start, hlocation, hstart⟩ := hplace
  refine ⟨Addition.file (.parsed source.1 source.2) ⟨id, i⟩, ?_, ?_⟩
  · rw [hlocation]
    exact hresolve
  · exact Diagnostic.inside_of_start_lt hlocation hstart

/-- No addition overflows, if all strings to check are as long as they may be behind their
targets. -/
theorem inWords_of_fits {id : Nat} {additions : List Addition}
    (h : ∀ a ∈ additions, ∀ u ∈ a.usages, u.Fits (2 ^ 64)) (rule : Rule) :
    Expected.InWords id additions rule := by
  intro d hd
  obtain ⟨a, i, ha, u, hu, hd⟩ := Expected.mem_overUsages_iff.mp hd
  obtain ⟨o, ho, v, hv, hlocation⟩ := Expected.exists_violation_of_mem_ofUsage hd
  rw [hlocation]
  exact ((h a (List.fst_mem_of_mem_zipIdx ha) u hu).position ho hv).2

/-- With checked addition, too, an analysis of files that are read from their texts has a result, if
none of them is longer than `2 ^ 64` bytes. -/
theorem analyzeChecked_ofSources (registry : Registry) (id : Nat) {sources : List (String × String)}
    (h : ∀ source ∈ sources, source.2.utf8ByteSize ≤ 2 ^ 64) :
    ∃ ds, analyze registry (Compilation.ofSources id sources) = .ok ds ∧
      analyzeChecked registry (Compilation.ofSources id sources) = .ok ds := by
  have hholds := Compilation.ofSources_eq_build id sources ▸ Compilation.holds_build id _
  have hfits : ∀ a ∈ sources.map (fun source => Addition.parsed source.1 source.2),
      ∀ u ∈ a.usages, u.Fits (2 ^ 64) := by
    intro a ha u hu
    obtain ⟨source, hsource, rfl⟩ := List.mem_map.mp ha
    refine (Usage.fits_of_mem_ofSource hu).mono ?_
    rw [width_toList]
    exact h source hsource
  refine ⟨_, analyze_of_holds hholds registry, ?_⟩
  rw [analyzeChecked, analyzeCheckedWith_of_holds checks_scanAll? hholds,
    if_pos fun rule _ => inWords_of_fits hfits rule]

/-- Every diagnostic about files that are read from their texts lies inside its file. The value of a
constant string has at least two characters less than its token has bytes. Each usage is of a list,
and what is wrong with its string lies no earlier than the first of the lists that stand together
with this one, and in front of the end of this one. -/
theorem diagnostics_inside (registry : Registry) (id : Nat) (sources : List (String × String)) :
    (∃ ds, analyze registry (Compilation.ofSources id sources) = .ok ds ∧ ∀ d ∈ ds, ∃ file,
      (Compilation.ofSources id sources).sources.resolve d.location.file = .ok file ∧
        d.Inside file) ∧
    (∀ source, ∀ t ∈ tokenize source, ∀ value, t.kind = .str value →
      value.length + 2 ≤ t.text.utf8ByteSize) ∧
    ∀ source, ∃ stretches, Walk source.toList none (tokenize source) stretches ∧
      (∀ u ∈ Usage.ofSource source, ∃ lists, .run lists ∈ stretches ∧ ∃ l, Usage.IsOf lists l u) ∧
      ∀ lists, .run lists ∈ stretches → ∀ l u, Usage.IsOf lists l u → ∀ file o,
        Extraction.occurrence? (file, u) = some o → ∀ rule, ∀ v ∈ Scan.scan rule o,
          (∀ first ∈ lists.head?, first.start ≤ v.position) ∧ v.position < l.stop ∧
          ∀ bits, source.utf8ByteSize < 2 ^ bits →
            AddsIn bits o.targetStart (v.position - o.targetStart) := by
  refine ⟨?_, fun source t ht value hvalue => ?_, fun source => ?_⟩
  · refine ⟨_, analyze_of_holds (Compilation.ofSources_eq_build id sources ▸
      Compilation.holds_build id _) registry, fun d hd => ?_⟩
    obtain ⟨rule, _, hd⟩ := List.mem_flatMap.mp hd
    exact inside_of_mem_ofRule hd
  · rw [← width_toList]
    exact length_add_two_le_of_mem_tokenize ht hvalue
  · obtain ⟨stretches, hwalk⟩ := exists_walk source.toList none (tokenize source)
    refine ⟨stretches, hwalk,
      fun u hu => Usage.exists_run_of_yields (Usage.yields_ofSource hwalk) hu, ?_⟩
    intro lists hrun l u hu file o ho rule v hv
    obtain ⟨hlies, hordered⟩ := hwalk.lies (spread_tokenize source) hrun
    obtain ⟨hfirst, hfits⟩ := hu.fits hlies hordered
    have hposition := hfits.position ho hv
    refine ⟨fun first hhead => ?_, hposition.2, fun bits hbits => ?_⟩
    · exact Nat.le_trans (hfirst first hhead) hposition.1
    · have hstop := (hlies l (List.mem_of_mem_filter hu.mem)).stop_le
      obtain ⟨htarget, _⟩ := Usage.exists_argument_of_occurrence? ho
      rw [width_toList] at hstop
      rw [addsIn_iff]
      omega

end Analysis

end AttributeLint

import AttributeLint.Proofs.Analysis.Places

/-!
# Locality — files do not influence each other

The diagnostics of an analysis are ordered by rules first and by files second, so those of one file
are scattered over the list. Picked out in their order, they are what the analysis of that file
alone gives, but for the handle of the file (`analyze_unit`). This rests on two facts about all that
is said about a usage: it lies in the file of the usage, and it is said in the same way under
another handle (`Expected.Local`).
-/

namespace AttributeLint

/-- The same diagnostic under another handle of its file. -/
def Diagnostic.inFile (file : FileId) (d : Diagnostic) : Diagnostic :=
  { d with location := { d.location with file } }

namespace Expected

/-- What is said about a usage lies in its file, and the handle of the file makes no other
difference. -/
structure Local (say : FileId → String → Usage → List Diagnostic) : Prop where
  lies : ∀ file path u, ∀ d ∈ say file path u, d.location.file = file
  moves : ∀ file file' path u, (say file path u).map (Diagnostic.inFile file') = say file' path u

theorem local_ofUsage (rule : Rule) : Local (ofUsage rule) where
  lies file path u d hd := by
    obtain ⟨o, _, v, _, hlocation⟩ := exists_violation_of_mem_ofUsage hd
    rw [hlocation]
    rfl
  moves file file' path u := by
    rw [ofUsage, ofUsage]
    split
    · split
      · rw [List.map_map]
        exact List.map_congr_left fun p _ => rfl
      · rfl
    · rfl

theorem local_ofMalformedUsage (rule : Rule) : Local (ofMalformedUsage rule) where
  lies file path u d hd := by
    rw [location_of_mem_ofMalformedUsage hd]
    rfl
  moves file file' path u := by
    rw [ofMalformedUsage, ofMalformedUsage]
    split
    · split
      · rfl
      · rfl
    · rfl

variable {id id' : Nat} {say : FileId → String → Usage → List Diagnostic} {a : Addition}
  {before after : List Addition}

/-- An addition at a given place stands between those before it and those after it. -/
theorem exists_append_of_mem_zipIdx {additions : List Addition} {i : Nat}
    (h : (a, i) ∈ additions.zipIdx) :
    ∃ before after, additions = before ++ a :: after ∧ before.length = i := by
  have ha : additions[i]? = some a := List.mem_zipIdx_iff_getElem?.mp h
  obtain ⟨hi, rfl⟩ := List.getElem?_eq_some_iff.mp ha
  refine ⟨additions.take i, additions.drop (i + 1), ?_, List.length_take_of_le (Nat.le_of_lt hi)⟩
  rw [← List.drop_eq_getElem_cons hi, List.take_append_drop]

theorem overUsages_eq_flatMap (id : Nat) (additions : List Addition)
    (say : FileId → String → Usage → List Diagnostic) :
    overUsages id additions say =
      additions.zipIdx.flatMap fun p => p.1.usages.flatMap (say ⟨id, p.2⟩ p.1.path) :=
  rfl

/-- Of what is said about all files, that which lies in one of them is what is said about it. -/
theorem filter_overUsages (h : Local say) :
    (overUsages id (before ++ a :: after) say).filter (·.location.file = ⟨id, before.length⟩) =
      a.usages.flatMap (say ⟨id, before.length⟩ a.path) := by
  have hother {others : List (Addition × Nat)} (hne : ∀ p ∈ others, p.2 ≠ before.length) :
      (others.flatMap fun p => p.1.usages.flatMap (say ⟨id, p.2⟩ p.1.path)).filter
        (·.location.file = ⟨id, before.length⟩) = [] := by
    rw [List.filter_eq_nil_iff]
    intro d hd
    obtain ⟨p, hp, hd⟩ := List.mem_flatMap.mp hd
    obtain ⟨u, _, hd⟩ := List.mem_flatMap.mp hd
    rw [h.lies _ _ _ d hd]
    simpa using hne p hp
  have hown : (a.usages.flatMap (say ⟨id, before.length⟩ a.path)).filter
      (·.location.file = ⟨id, before.length⟩) =
        a.usages.flatMap (say ⟨id, before.length⟩ a.path) := by
    rw [List.filter_eq_self]
    intro d hd
    obtain ⟨u, _, hd⟩ := List.mem_flatMap.mp hd
    exact decide_eq_true (h.lies _ _ _ d hd)
  have hbefore : ∀ p ∈ before.zipIdx, p.2 ≠ before.length := fun p hp =>
    Nat.ne_of_lt (List.snd_lt_of_mem_zipIdx hp)
  have hafter : ∀ p ∈ after.zipIdx (before.length + 1), p.2 ≠ before.length := fun p hp =>
    Nat.ne_of_gt (List.le_snd_of_mem_zipIdx hp)
  rw [overUsages_eq_flatMap, List.zipIdx_append, Nat.zero_add, List.zipIdx_cons,
    List.flatMap_append, List.flatMap_cons, List.filter_append, List.filter_append, hother hbefore,
    hown, hother hafter, List.nil_append, List.append_nil]

/-- Under another handle, that is what is said about the file when it is the only one. -/
theorem map_inFile_filter_overUsages (h : Local say) :
    ((overUsages id (before ++ a :: after) say).filter
        (·.location.file = ⟨id, before.length⟩)).map (Diagnostic.inFile ⟨id', 0⟩) =
      overUsages id' [a] say := by
  have hmoves : ∀ u, (say ⟨id, before.length⟩ a.path u).map (Diagnostic.inFile ⟨id', 0⟩) =
      say ⟨id', 0⟩ a.path u := h.moves _ _ _
  rw [filter_overUsages h, List.map_flatMap]
  simp only [hmoves, overUsages, List.zipIdx_singleton, List.flatMap_singleton]

/-- What a rule reports about one file is what it reports about the file when it is the only one. -/
theorem map_inFile_filter_ofRule (rule : Rule) :
    ((ofRule id (before ++ a :: after) rule).filter
        (·.location.file = ⟨id, before.length⟩)).map (Diagnostic.inFile ⟨id', 0⟩) =
      ofRule id' [a] rule := by
  rw [ofRule, ofRule, List.filter_append, List.map_append,
    map_inFile_filter_overUsages (local_ofUsage rule)]
  cases rule.malformed with
  | skip => rfl
  | report =>
    exact congrArg _ (map_inFile_filter_overUsages (local_ofMalformedUsage rule))

end Expected

namespace Analysis

/-- Whatever else a compilation holds, and wherever a file stands in it, the diagnostics that lie in
the file are those of a compilation that holds it alone, with the same path, text and usages: in the
same order, and the same but for the handle. -/
theorem analyze_unit (registry : Registry) (id id' : Nat) (additions : List Addition)
    {unit : CompilationUnit} (h : unit ∈ (Compilation.build id additions).units) :
    ∃ source diagnostics,
      (Compilation.build id additions).sources.resolve unit.file = .ok source ∧
      analyze registry (Compilation.build id additions) = .ok diagnostics ∧
      analyze registry ((Compilation.empty id').addUnit source.path source.text unit.usages) =
        .ok ((diagnostics.filter (·.location.file = unit.file)).map
          (Diagnostic.inFile ⟨id', 0⟩)) := by
  have holds : Compilation.Holds id additions (Compilation.build id additions) :=
    Compilation.holds_build id additions
  rw [holds.units] at h
  obtain ⟨⟨a, i⟩, ha, rfl⟩ := List.mem_map.mp h
  refine ⟨a.file ⟨id, i⟩, _, holds.resolve ha, analyze_of_holds holds registry, ?_⟩
  obtain ⟨before, after, rfl, rfl⟩ := Expected.exists_append_of_mem_zipIdx ha
  have alone : Compilation.Holds id' [a] ((Compilation.empty id').add a) :=
    Compilation.holds_build id' [a]
  rw [Compilation.add_eq_addUnit] at alone
  show analyze registry ((Compilation.empty id').addUnit a.path a.text a.usages) = _
  rw [analyze_of_holds alone registry, List.filter_flatMap, List.map_flatMap]
  congr 2
  exact funext fun rule => (Expected.map_inFile_filter_ofRule rule).symm

/-- Two rules and three files, so that the diagnostics of the second file are kept apart by those of
the third and of the first. -/
theorem analyze_unit_between :
    let registry := Registry.builtin.add
      { Rule.errorAttribute with
        descriptor := { Descriptor.illegalCharacter with id := "ESG0003" }
        malformed := .report }
    let additions : List Addition :=
      [.parsed "a.cs" "[Error(\"?\")] class A", .parsed "b.cs" "[Error(\"a?\"), Error(1)] class B",
        .given "a.cs" "class A" [⟨"Error", 3, [⟨.positional, .string "?"⟩]⟩]]
    let c := Compilation.build 7 additions
    let unit : CompilationUnit := ⟨⟨7, 1⟩, Usage.ofSource "[Error(\"a?\"), Error(1)] class B"⟩
    unit ∈ c.units ∧ ∃ source diagnostics,
      c.sources.resolve unit.file = .ok source ∧
      analyze registry c = .ok diagnostics ∧
      analyze registry ((Compilation.empty 8).addUnit source.path source.text unit.usages) =
        .ok ((diagnostics.filter (·.location.file = unit.file)).map
          (Diagnostic.inFile ⟨8, 0⟩)) := by
  intro registry additions c unit
  have h : unit ∈ c.units := List.mem_of_getElem? (i := 1) rfl
  exact ⟨h, analyze_unit registry 7 8 additions h⟩

end Analysis

end AttributeLint

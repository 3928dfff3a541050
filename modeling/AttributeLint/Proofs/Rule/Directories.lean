import AttributeLint.Files.Snapshot
import AttributeLint.Proofs.Rule.Sources

/-!
# Directories — what a directory of rule files does to a registry

The paths of the rule files in a directory have one order, in whatever order the directory is listed
(`ruleFiles_eq_of_perm`). Files are loaded in this order until one fails, for one of three reasons
(`FileFails`). A file that fails adds nothing, so the registry holds what the files before it gave,
and all of what they gave (`Outcome`).
-/

namespace AttributeLint

/-! ## Names and paths -/

namespace Path

variable {extension name a b : String}

/-- A name with an extension has something in front of the point. -/
theorem hasExtension_iff : hasExtension extension name = true ↔
    ∃ stem, stem ≠ "" ∧ name = stem ++ ("." ++ extension) := by
  simp only [hasExtension, Bool.and_eq_true, decide_eq_true_eq]
  rw [← String.endsWith_toSlice, String.Slice.endsWith_string_iff, String.copy_toSlice]
  constructor
  · rintro ⟨⟨stem, hname⟩, hlonger⟩
    have hname : name = String.ofList stem ++ ("." ++ extension) := by
      rw [← String.toList_inj, String.toList_append, String.toList_ofList, hname]
    refine ⟨String.ofList stem, ?_, hname⟩
    intro hempty
    rw [hempty, String.empty_append] at hname
    exact hlonger hname
  · rintro ⟨stem, hnonempty, rfl⟩
    refine ⟨⟨stem.toList, String.toList_append.symm⟩, ?_⟩
    intro hsame
    rw [← String.toList_inj, String.toList_append, List.append_left_eq_self] at hsame
    exact hnonempty (String.toList_eq_nil_iff.mp hsame)

/-- The paths of files in one directory are in the order of their names. -/
theorem join_le_join (directory : String) (h : a ≤ b) : join directory a ≤ join directory b := by
  have hbehind (front : String) : front ++ a ≤ front ++ b := by
    -- texts are ordered as the lists of their characters
    have hlonger := @List.append_left_le Char _ _ _ front.toList a.toList b.toList h
    rwa [← String.toList_append, ← String.toList_append] at hlonger
  rw [join, join]
  split
  · exact hbehind directory
  · exact hbehind (directory ++ "/")

end Path

/-- The disk with the entries of a directory listed otherwise. -/
def Disk.relist (disk : Disk) (directory : String) (listing : List String) : Disk :=
  { disk with
    entries? := fun path => if path = directory then some listing else disk.entries? path }

namespace Registry

variable {disk : Disk} {registry loaded : Registry} {ds : List ValidDefinition}
  {directory path : String} {paths before after entries listing : List String} {e : LoadError}
  {outcome : Registry × Except LoadError Nat}

/-! ## Files that fail -/

/-- Why a file gives nothing: it cannot be read, it is no rule file, or the first of its definitions
that make no rule is refused. -/
inductive FileFails (disk : Disk) (path : String) : LoadError → Prop where
  | unreadable (hunread : disk.read? path = none) : FileFails disk path (.unreadableFile path)
  | malformed {text : String} (hreadable : disk.read? path = some text)
      (hnone : (Toml.document? text).bind RuleFile.definitions? = none) :
      FileFails disk path (.invalidFile path .malformedFile)
  | refused {text : String} {valid later : List RuleDefinition} {definition : RuleDefinition}
      {cause : RuleError} (hreadable : disk.read? path = some text)
      (hgiven : (Toml.document? text).bind RuleFile.definitions? =
        some (valid ++ definition :: later))
      (hrules : ∀ d ∈ valid, ∃ rule, d.toRule = .ok rule)
      (hrefused : definition.toRule = .error cause) :
      FileFails disk path (.invalidFile path cause)

theorem fileRules_eq_error_iff : fileRules disk path = .error e ↔ FileFails disk path e := by
  rw [fileRules]
  constructor
  · intro h
    cases hreadable : disk.read? path with
    | none =>
      rw [hreadable] at h
      cases h
      exact .unreadable hreadable
    | some text =>
      rw [hreadable] at h
      replace h : (RuleFile.rules text).mapError (LoadError.invalidFile path) = .error e := h
      rw [RuleFile.rules] at h
      cases hgiven : (Toml.document? text).bind RuleFile.definitions? with
      | none =>
        rw [hgiven] at h
        cases h
        exact .malformed hreadable hgiven
      | some definitions =>
        rw [hgiven] at h
        replace h : (definitions.mapM RuleDefinition.toRule).mapError
          (LoadError.invalidFile path) = .error e := h
        cases hfails : definitions.mapM RuleDefinition.toRule with
        | ok rules =>
          rw [hfails] at h
          cases h
        | error cause =>
          rw [hfails] at h
          cases h
          obtain ⟨valid, definition, later, rfl, hrules, hrefused⟩ := mapM_eq_error_iff.mp hfails
          exact .refused hreadable hgiven hrules hrefused
  · intro h
    cases h with
    | unreadable hunread => rw [hunread]
    | malformed hreadable hnone =>
      rw [hreadable]
      show (RuleFile.rules _).mapError _ = _
      rw [RuleFile.rules, hnone]
      rfl
    | @refused text valid later definition cause hreadable hgiven hrules hrefused =>
      rw [hreadable]
      show (RuleFile.rules _).mapError _ = _
      rw [RuleFile.rules, hgiven]
      show ((valid ++ definition :: later).mapM RuleDefinition.toRule).mapError _ = _
      rw [mapM_eq_error_iff.mpr ⟨valid, definition, later, rfl, hrules, hrefused⟩]
      rfl

/-- A file that fails adds nothing, not even the rules in front of the one that is refused. -/
theorem loadFile_of_fails (hfails : FileFails disk path e) :
    loadFile disk registry path = (registry, .error e) := by
  rw [loadFile, fileRules_eq_error_iff.mpr hfails]

/-! ## Files one after the other -/

/-- What loading some files comes to: all of them give something, or the registry has what those in
front of the first one that fails give. -/
inductive Outcome (disk : Disk) (registry : Registry) (paths : List String) :
    Registry × Except LoadError Nat → Prop where
  | loaded {ds : List ValidDefinition} (hgiven : GivesAll (FileGives disk) paths ds) :
      Outcome disk registry paths (registry.define ds, .ok ds.length)
  | stopped {before after : List String} {path : String} {ds : List ValidDefinition}
      {e : LoadError} (hsplit : paths = before ++ path :: after)
      (hgiven : GivesAll (FileGives disk) before ds) (hfails : FileFails disk path e) :
      Outcome disk registry paths (registry.define ds, .error e)

theorem loadFiles_of_fails (hgiven : GivesAll (FileGives disk) before ds)
    (hfails : FileFails disk path e) :
    loadFiles disk registry (before ++ path :: after) = (registry.define ds, .error e) := by
  induction before generalizing registry ds with
  | nil =>
    rw [givesAll_nil_iff.mp hgiven, List.nil_append, loadFiles, loadFile_of_fails hfails]
    rfl
  | cons first before ih =>
    obtain ⟨part, rest, hhere, hothers, rfl⟩ := givesAll_cons_iff.mp hgiven
    rw [List.cons_append, loadFiles, (loads_loadFile disk).adds registry hhere]
    simp only [ih hothers]
    rw [define_append]
    rfl

theorem exists_outcome (disk : Disk) (registry : Registry) (paths : List String) :
    ∃ outcome, Outcome disk registry paths outcome := by
  induction paths generalizing registry with
  | nil => exact ⟨_, .loaded (givesAll_nil_iff.mpr rfl)⟩
  | cons path paths ih =>
    cases hfound : fileRules disk path with
    | error e =>
      exact ⟨_, .stopped (List.nil_append _).symm (givesAll_nil_iff.mpr rfl)
        (fileRules_eq_error_iff.mp hfound)⟩
    | ok rules =>
      obtain ⟨part, hfirst⟩ := exists_fileGives hfound
      obtain ⟨_, hrest⟩ := ih registry
      cases hrest with
      | loaded hgiven =>
        exact ⟨_, .loaded (givesAll_cons_iff.mpr ⟨part, _, hfirst, hgiven, rfl⟩)⟩
      | @stopped before after failing _ _ hsplit hgiven hfails =>
        have hsplit : path :: paths = (path :: before) ++ failing :: after := by
          rw [hsplit, List.cons_append]
        exact ⟨_, .stopped hsplit (givesAll_cons_iff.mpr ⟨part, _, hfirst, hgiven, rfl⟩) hfails⟩

theorem Outcome.loadFiles_eq (h : Outcome disk registry paths outcome) :
    loadFiles disk registry paths = outcome := by
  cases h with
  | loaded hgiven => exact loadFiles_of_gives hgiven
  | stopped hsplit hgiven hfails =>
    rw [hsplit]
    exact loadFiles_of_fails hgiven hfails

theorem loadFiles_eq_iff :
    loadFiles disk registry paths = outcome ↔ Outcome disk registry paths outcome := by
  constructor
  · rintro rfl
    obtain ⟨outcome, h⟩ := exists_outcome disk registry paths
    rw [h.loadFiles_eq]
    exact h
  · exact Outcome.loadFiles_eq

/-! ## Directories -/

/-- The loading of files asks only for their texts. -/
theorem loadFiles_relist :
    loadFiles (disk.relist directory listing) registry paths = loadFiles disk registry paths := by
  induction paths generalizing registry with
  | nil => rfl
  | cons path paths ih =>
    have hfirst : loadFile (disk.relist directory listing) registry path =
        loadFile disk registry path := rfl
    rw [loadFiles, loadFiles, hfirst]
    split
    · rfl
    · rw [ih]

theorem loadDirectory_relist (hthere : disk.isDirectory directory) :
    loadDirectory (disk.relist directory listing) registry directory =
      loadFiles disk registry (ruleFiles directory listing) := by
  have hlisted : (disk.relist directory listing).entries? directory = some listing := if_pos rfl
  rw [loadDirectory, hlisted]
  exact (if_pos hthere).trans loadFiles_relist

theorem ruleFiles_eq_of_perm (directory : String) (hrelisted : listing.Perm entries) :
    ruleFiles directory listing = ruleFiles directory entries :=
  ruleFiles_eq (pairwise_mergeSort_le _)
    ((List.mergeSort_perm _ _).trans (hrelisted.filter _).symm)

theorem pairwise_ruleFiles (directory : String) (entries : List String) :
    (ruleFiles directory entries).Pairwise (· ≤ ·) :=
  (pairwise_mergeSort_le _).map _ fun _ _ => Path.join_le_join directory

/-- The entries of a directory with the extension `toml`, in the order of their paths, are the files
that are loaded, in whatever order the directory is listed. All of their rules are added in this
order and counted, or loading stops at the first file that fails and the registry is what the files
before it gave, with nothing of the file that failed. -/
theorem loadDirectory_in_path_order (hthere : disk.isDirectory directory)
    (hlisted : disk.entries? directory = some entries) :
    (∀ name, Path.hasExtension "toml" name ↔ ∃ stem, stem ≠ "" ∧ name = stem ++ ".toml") ∧
    ∃ paths, paths.Pairwise (· ≤ ·) ∧
      paths.Perm ((entries.filter (Path.hasExtension "toml")).map (Path.join directory)) ∧
      (∀ registry outcome, loadDirectory disk registry directory = outcome ↔
        Outcome disk registry paths outcome) ∧
      ∀ listing, listing.Perm entries → ∀ registry,
        loadDirectory (disk.relist directory listing) registry directory =
          loadDirectory disk registry directory := by
  have hinOrder (registry : Registry) : loadDirectory disk registry directory =
      loadFiles disk registry (ruleFiles directory entries) := by
    rw [loadDirectory, if_pos hthere, hlisted]
  refine ⟨fun name => Path.hasExtension_iff, ruleFiles directory entries,
    pairwise_ruleFiles directory entries, (List.mergeSort_perm _ _).map _, ?_, ?_⟩
  · intro registry outcome
    rw [hinOrder, loadFiles_eq_iff]
  · intro listing hrelisted registry
    rw [loadDirectory_relist hthere, ruleFiles_eq_of_perm directory hrelisted, hinOrder]

/-- The second file has a rule and then one without an identifier. Of the two files only the first
adds rules, however the directory is listed and whatever the registry holds. -/
theorem loadDirectory_in_path_order_stopped :
    let disk := Snapshot.disk
      { texts :=
          [("rules/a.toml",
              "[[rules]]\nid='A1'\ntitle=''\nattribute='A'\ndisallowed_characters=['!']"),
            ("rules/b.toml",
              "[[rules]]\nid='B1'\ntitle=''\nattribute='B'\ndisallowed_characters=[]\n" ++
              "[[rules]]\nid=''\ntitle=''\nattribute='B'\ndisallowed_characters=[]")]
        directories := [("rules", some ["b.toml", "notes.txt", ".toml", "c.toml", "a.toml"])] }
    ∃ a, a.map (·.id) = ["A1"] ∧
      ∀ listing, listing.Perm ["b.toml", "notes.txt", ".toml", "c.toml", "a.toml"] →
        ∀ registry, loadDirectory (disk.relist "rules" listing) registry "rules" =
          (registry.define a, .error (.invalidFile "rules/b.toml" .emptyId)) := by
  intro disk
  obtain ⟨a, ha, haIds⟩ : ∃ a, FileGives disk "rules/a.toml" a ∧ a.map (·.id) = ["A1"] :=
    exists_gives_of_map_id (by decide +kernel)
  have hfails : FileFails disk "rules/b.toml" (.invalidFile "rules/b.toml" .emptyId) :=
    fileRules_eq_error_iff.mp (by decide +kernel)
  refine ⟨a, haIds, fun listing hrelisted registry => ?_⟩
  have hthere : disk.isDirectory "rules" := rfl
  obtain ⟨-, paths, hsorted, hlisted, houtcomes, hsame⟩ := loadDirectory_in_path_order hthere rfl
  have hinOrder : paths = ["rules/a.toml", "rules/b.toml", "rules/c.toml"] := by
    refine List.Perm.eq_of_pairwise (fun a b _ _ => String.le_antisymm) hsorted
      (by decide +kernel) (hlisted.trans ?_)
    decide +kernel
  have hsplit : paths = ["rules/a.toml"] ++ "rules/b.toml" :: ["rules/c.toml"] := hinOrder
  rw [hsame listing hrelisted registry, houtcomes]
  exact .stopped hsplit ⟨[a], .cons ha .nil, by simp⟩ hfails

end Registry

end AttributeLint

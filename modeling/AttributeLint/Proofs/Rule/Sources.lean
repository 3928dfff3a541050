import AttributeLint.Configuration
import AttributeLint.Proofs.Rule.Insertion
import AttributeLint.Proofs.Rule.Validity
import AttributeLint.Proofs.Traversal

/-!
# Sources — what rule files and directories give

A rule file gives definitions that are all valid, in order, or nothing (`FileGives`). A directory
gives what its rule files give in the order of their names (`DirectoryGives`). Loading adds what a
source gives, and it fails exactly if the source gives nothing (`Loads`); this passes from a file to
the files of a directory and to the sources of a configuration (`loadFiles_of_gives`,
`Loads.loadAll`).
-/

namespace AttributeLint

/-- A definition that is valid, and the rule that it describes. -/
structure ValidDefinition where
  definition : RuleDefinition
  rule : Rule
  valid : definition.toRule = .ok rule

namespace ValidDefinition

/-- The identifier without the white space at its ends. -/
def id (d : ValidDefinition) : String :=
  Text.trim d.definition.id

/-- A rule has the trimmed identifier of its definition. -/
theorem id_rule (d : ValidDefinition) : d.rule.id = d.id := by
  obtain ⟨-, hrule⟩ := RuleDefinition.toRule_eq_ok_iff.mp d.valid
  rw [hrule]
  rfl

theorem mapM_toRule (ds : List ValidDefinition) :
    (ds.map (·.definition)).mapM RuleDefinition.toRule = .ok (ds.map (·.rule)) := by
  rw [mapM_eq_ok_iff, List.forall₂_map_left_iff, List.forall₂_map_right_iff, List.forall₂_same]
  exact fun d _ => d.valid

/-- Definitions that all become rules are valid. -/
theorem exists_of_mapM_toRule {definitions : List RuleDefinition} {rules : List Rule}
    (h : definitions.mapM RuleDefinition.toRule = .ok rules) :
    ∃ ds : List ValidDefinition, ds.map (·.definition) = definitions := by
  rw [mapM_eq_ok_iff] at h
  induction h with
  | nil => exact ⟨[], rfl⟩
  | cons hvalid _ ih =>
    obtain ⟨ds, rfl⟩ := ih
    exact ⟨⟨_, _, hvalid⟩ :: ds, rfl⟩

end ValidDefinition

/-- The text is that of a rule file with the given definitions. -/
def RuleFile.TextGives (text : String) (ds : List ValidDefinition) : Prop :=
  (Toml.document? text).bind definitions? = some (ds.map (·.definition))

theorem RuleFile.TextGives.rules_eq {text : String} {ds : List ValidDefinition}
    (h : TextGives text ds) : rules text = .ok (ds.map (·.rule)) := by
  rw [rules, h]
  exact ValidDefinition.mapM_toRule ds

theorem RuleFile.exists_textGives {text : String} {found : List Rule}
    (h : rules text = .ok found) : ∃ ds, TextGives text ds := by
  rw [rules] at h
  cases hread : (Toml.document? text).bind definitions? with
  | none =>
    rw [hread] at h
    cases h
  | some definitions =>
    rw [hread] at h
    obtain ⟨ds, rfl⟩ := ValidDefinition.exists_of_mapM_toRule h
    exact ⟨ds, hread⟩

namespace Registry

variable {load : Registry → String → Registry × Except LoadError Nat}
  {Gives : String → List ValidDefinition → Prop} {disk : Disk} {registry loaded : Registry}
  {ds : List ValidDefinition} {path : String} {paths : List String} {count : Nat}

/-- The registry with the rules of some definitions added one after the other. -/
def define (registry : Registry) (ds : List ValidDefinition) : Registry :=
  registry.addAll (ds.map (·.rule))

theorem map_id_rule (ds : List ValidDefinition) :
    (ds.map (·.rule)).map (·.id) = ds.map (·.id) := by
  rw [List.map_map]
  exact List.map_congr_left fun d _ => d.id_rule

theorem define_append (registry : Registry) (ds ds' : List ValidDefinition) :
    registry.define (ds ++ ds') = (registry.define ds).define ds' := by
  rw [define, define, define, List.map_append, addAll_append]

/-- Each of the sources gives something, and all of it in order is the given list. -/
def GivesAll (Gives : String → List ValidDefinition → Prop) (paths : List String)
    (ds : List ValidDefinition) : Prop :=
  ∃ parts, List.Forall₂ Gives paths parts ∧ ds = parts.flatten

theorem givesAll_nil_iff : GivesAll Gives [] ds ↔ ds = [] := by
  constructor
  · rintro ⟨parts, heach, rfl⟩
    cases heach
    rfl
  · rintro rfl
    exact ⟨[], .nil, rfl⟩

theorem givesAll_cons_iff :
    GivesAll Gives (path :: paths) ds ↔
      ∃ part rest, Gives path part ∧ GivesAll Gives paths rest ∧ ds = part ++ rest := by
  constructor
  · rintro ⟨parts, heach, rfl⟩
    cases heach with
    | cons hfirst hothers => exact ⟨_, _, hfirst, ⟨_, hothers, rfl⟩, rfl⟩
  · rintro ⟨part, _, hfirst, ⟨parts, hothers, rfl⟩, rfl⟩
    exact ⟨part :: parts, .cons hfirst hothers, rfl⟩

/-- Something is given by all sources together exactly if each of them gives something. -/
theorem exists_givesAll_iff :
    (∃ ds, GivesAll Gives paths ds) ↔ ∀ path ∈ paths, ∃ part, Gives path part := by
  induction paths with
  | nil =>
    constructor
    · exact fun _ _ hmem => absurd hmem List.not_mem_nil
    · exact fun _ => ⟨[], givesAll_nil_iff.mpr rfl⟩
  | cons path paths ih =>
    rw [List.forall_mem_cons, ← ih]
    constructor
    · rintro ⟨ds, hgiven⟩
      obtain ⟨part, rest, hfirst, hothers, -⟩ := givesAll_cons_iff.mp hgiven
      exact ⟨⟨part, hfirst⟩, rest, hothers⟩
    · rintro ⟨⟨part, hfirst⟩, rest, hothers⟩
      exact ⟨part ++ rest, givesAll_cons_iff.mpr ⟨part, rest, hfirst, hothers, rfl⟩⟩

/-- Loading a source adds what it gives, and succeeds only if it gives something. -/
structure Loads (load : Registry → String → Registry × Except LoadError Nat)
    (Gives : String → List ValidDefinition → Prop) : Prop where
  adds : ∀ registry {path ds}, Gives path ds →
    load registry path = (registry.define ds, .ok ds.length)
  gives : ∀ {registry path loaded count}, load registry path = (loaded, .ok count) →
    ∃ ds, Gives path ds

/-! ## Files -/

/-- The file can be read and is a rule file with the given definitions. -/
def FileGives (disk : Disk) (path : String) (ds : List ValidDefinition) : Prop :=
  ∃ text, disk.read? path = some text ∧ RuleFile.TextGives text ds

theorem fileRules_of_gives (h : FileGives disk path ds) :
    fileRules disk path = .ok (ds.map (·.rule)) := by
  obtain ⟨text, hreadable, hgiven⟩ := h
  rw [fileRules, hreadable]
  show (RuleFile.rules text).mapError _ = _
  rw [hgiven.rules_eq]
  rfl

theorem exists_fileGives {found : List Rule} (h : fileRules disk path = .ok found) :
    ∃ ds, FileGives disk path ds := by
  rw [fileRules] at h
  cases hreadable : disk.read? path with
  | none =>
    rw [hreadable] at h
    cases h
  | some text =>
    rw [hreadable] at h
    replace h : (RuleFile.rules text).mapError (LoadError.invalidFile path) = .ok found := h
    cases hrules : RuleFile.rules text with
    | error e =>
      rw [hrules] at h
      cases h
    | ok rules =>
      obtain ⟨ds, hgiven⟩ := RuleFile.exists_textGives hrules
      exact ⟨ds, text, hreadable, hgiven⟩

/-- A file whose rules have the given identifiers gives definitions with these identifiers. -/
theorem exists_gives_of_map_id {path : String} {ids : List String}
    (h : (fileRules disk path).toOption.map (List.map Rule.id) = some ids) :
    ∃ ds, FileGives disk path ds ∧ ds.map (·.id) = ids := by
  cases hfound : fileRules disk path with
  | error e =>
    rw [hfound] at h
    cases h
  | ok rules =>
    obtain ⟨ds, hgiven⟩ := exists_fileGives hfound
    rw [fileRules_of_gives hgiven] at h
    refine ⟨ds, hgiven, ?_⟩
    rw [← map_id_rule]
    exact Option.some.inj h

theorem loads_loadFile (disk : Disk) : Loads (loadFile disk) (FileGives disk) where
  adds registry {path ds} hgiven := by
    rw [loadFile, fileRules_of_gives hgiven]
    show (registry.define ds, Except.ok (ds.map (·.rule)).length) = _
    rw [List.length_map]
  gives {registry path loaded count} h := by
    rw [loadFile] at h
    cases hfound : fileRules disk path with
    | error e =>
      rw [hfound] at h
      cases h
    | ok rules => exact exists_fileGives hfound

/-- Loading files one after the other adds all that they give. -/
theorem loadFiles_of_gives (hgiven : GivesAll (FileGives disk) paths ds) :
    loadFiles disk registry paths = (registry.define ds, .ok ds.length) := by
  induction paths generalizing registry ds with
  | nil =>
    rw [givesAll_nil_iff.mp hgiven]
    rfl
  | cons path paths ih =>
    obtain ⟨part, rest, hfirst, hothers, rfl⟩ := givesAll_cons_iff.mp hgiven
    rw [loadFiles, (loads_loadFile disk).adds registry hfirst]
    simp only [ih hothers]
    rw [define_append, List.length_append]
    rfl

theorem exists_gives_of_loadFiles (h : loadFiles disk registry paths = (loaded, .ok count)) :
    ∃ ds, GivesAll (FileGives disk) paths ds := by
  induction paths generalizing registry loaded count with
  | nil => exact ⟨[], givesAll_nil_iff.mpr rfl⟩
  | cons path paths ih =>
    rw [loadFiles] at h
    split at h
    · cases h
    · rename_i next _ hfirst
      obtain ⟨part, hfirst⟩ := (loads_loadFile disk).gives hfirst
      cases hrest : loadFiles disk next paths with
      | mk registry' result =>
        rw [hrest] at h
        cases result with
        | error e => cases h
        | ok count =>
          obtain ⟨rest, hothers⟩ := ih hrest
          exact ⟨part ++ rest, givesAll_cons_iff.mpr ⟨part, rest, hfirst, hothers, rfl⟩⟩

/-! ## Directories -/

/-- The names of the rule files in a directory, in order. A path that names no directory has
none. -/
def Lists (disk : Disk) (directory : String) (names : List String) : Prop :=
  names.Pairwise (· ≤ ·) ∧
    if disk.isDirectory directory then
      ∃ entries, disk.entries? directory = some entries ∧
        names.Perm (entries.filter (Path.hasExtension "toml"))
    else names = []

/-- What the rule files of a directory give, in the order of their names. -/
def DirectoryGives (disk : Disk) (directory : String) (ds : List ValidDefinition) : Prop :=
  ∃ names, Lists disk directory names ∧
    GivesAll (FileGives disk) (names.map (Path.join directory)) ds

/-- Names are put in order. -/
theorem pairwise_mergeSort_le (names : List String) :
    (names.mergeSort fun a b => decide (a ≤ b)).Pairwise (· ≤ ·) := by
  have hsorted := @List.pairwise_mergeSort String (fun a b => decide (a ≤ b))
    (fun a b c hab hbc => decide_eq_true
      (String.le_trans (of_decide_eq_true hab) (of_decide_eq_true hbc)))
    (fun a b => by simpa using String.le_total a b) names
  exact hsorted.imp of_decide_eq_true

/-- The names in order are the ones that are loaded, however the directory is listed. -/
theorem ruleFiles_eq {directory : String} {names entries : List String}
    (hsorted : names.Pairwise (· ≤ ·))
    (hlisted : names.Perm (entries.filter (Path.hasExtension "toml"))) :
    ruleFiles directory entries = names.map (Path.join directory) := by
  have hsame : (entries.filter (Path.hasExtension "toml")).mergeSort (fun a b => decide (a ≤ b)) =
      names := by
    refine List.Perm.eq_of_pairwise (fun a b _ _ => String.le_antisymm)
      (pairwise_mergeSort_le _) hsorted ?_
    exact (List.mergeSort_perm _ _).trans hlisted.symm
  rw [ruleFiles, hsame]

theorem loads_loadDirectory (disk : Disk) : Loads (loadDirectory disk) (DirectoryGives disk) where
  adds registry {path ds} hgiven := by
    obtain ⟨names, ⟨hsorted, hlisted⟩, hgiven⟩ := hgiven
    rw [loadDirectory]
    by_cases hthere : disk.isDirectory path
    · rw [if_pos hthere] at hlisted
      obtain ⟨entries, hentries, hlisted⟩ := hlisted
      rw [if_pos hthere, hentries]
      simp only [ruleFiles_eq hsorted hlisted]
      exact loadFiles_of_gives hgiven
    · rw [if_neg hthere] at hlisted
      subst hlisted
      rw [if_neg hthere, givesAll_nil_iff.mp hgiven]
      rfl
  gives {registry path loaded count} h := by
    rw [loadDirectory] at h
    by_cases hthere : disk.isDirectory path
    · rw [if_pos hthere] at h
      cases hentries : disk.entries? path with
      | none =>
        rw [hentries] at h
        cases h
      | some entries =>
        rw [hentries] at h
        obtain ⟨ds, hgiven⟩ := exists_gives_of_loadFiles h
        exact ⟨ds, _, ⟨pairwise_mergeSort_le _, by
          rw [if_pos hthere]
          exact ⟨entries, hentries, List.mergeSort_perm _ _⟩⟩, hgiven⟩
    · exact ⟨[], [], ⟨.nil, by rw [if_neg hthere]⟩, givesAll_nil_iff.mpr rfl⟩

/-! ## All sources of one kind -/

theorem Loads.loadAll (h : Loads load Gives) (hgiven : GivesAll Gives paths ds) :
    Configuration.loadAll load registry paths = .ok (registry.define ds) := by
  induction paths generalizing registry ds with
  | nil =>
    rw [givesAll_nil_iff.mp hgiven]
    rfl
  | cons path paths ih =>
    obtain ⟨part, rest, hfirst, hothers, rfl⟩ := givesAll_cons_iff.mp hgiven
    rw [Configuration.loadAll, h.adds registry hfirst, define_append]
    exact ih hothers

theorem Loads.exists_gives (h : Loads load Gives)
    (hall : Configuration.loadAll load registry paths = .ok loaded) :
    ∃ ds, GivesAll Gives paths ds := by
  induction paths generalizing registry with
  | nil => exact ⟨[], givesAll_nil_iff.mpr rfl⟩
  | cons path paths ih =>
    rw [Configuration.loadAll] at hall
    split at hall
    · cases hall
    · rename_i hfirst
      obtain ⟨part, hfirst⟩ := h.gives hfirst
      obtain ⟨rest, hothers⟩ := ih hall
      exact ⟨part ++ rest, givesAll_cons_iff.mpr ⟨part, rest, hfirst, hothers, rfl⟩⟩

end Registry

end AttributeLint

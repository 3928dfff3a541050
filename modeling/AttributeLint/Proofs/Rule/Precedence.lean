import AttributeLint.Files.Snapshot
import AttributeLint.Proofs.Rule.Sources

/-!
# Precedence — which rules a run has

A configuration names sources of rules, and the built-in rule file comes before all of them
(`Layers`). If every source gives something, the rules of the run are told by the definitions of all
layers, one after the other: an identifier takes the place of its first definition and the contents
of its last (`Precedes`), and what the command line says about all rules comes on top. If a source
gives nothing, there are no rules (`registry_of_layers`).
-/

namespace AttributeLint

/-! ## The built-in rule file -/

namespace RuleFile

/-- The lines of the built-in rule file. -/
def builtinLines : List String :=
  ["# Built-in rule set.",
    "#",
    "# Copy this file into the rules directory (see `attr-check --help`) to",
    "# override or extend it. Rules with the same id replace the built-in ones.",
    "",
    "[[rules]]",
    "id = \"ESG0001\"",
    "title = \"Illegal character in message\"",
    "message_format = \"Illegal character '\x7b0\x7d' in message \\\"\x7b1\x7d\\\"\"",
    "category = \"ErrorGenerator\"",
    "severity = \"warning\"",
    "attribute = \"ErrorAttribute\"",
    "disallowed_characters = [\"?\"]",
    "position_mode = \"violation-count\"",
    "malformed = \"skip\""]

/-- The text of the built-in rule file. -/
def builtinText : String :=
  .ofList (builtinLines.flatMap fun line => line.toList ++ ['\n'])

/-- The one table in the built-in rule file. -/
def builtinTable : Toml.Table :=
  [("id", .string "ESG0001"),
    ("title", .string "Illegal character in message"),
    ("message_format", .string Descriptor.defaultMessageFormat),
    ("category", .string "ErrorGenerator"),
    ("severity", .string "warning"),
    ("attribute", .string "ErrorAttribute"),
    ("disallowed_characters", .array [.string "?"]),
    ("position_mode", .string "violation-count"),
    ("malformed", .string "skip")]

set_option maxRecDepth 4000 in
theorem document?_builtinText :
    Toml.document? builtinText = some [("rules", .tables [builtinTable])] := by
  -- unification finds the characters of the lines; decoding the literals would take the kernel long
  have hcharacters : builtinLines =
      List.map String.ofList [_, _, _, _, _, _, _, _, _, _, _, _, _, _, _] := rfl
  rw [Toml.document?, builtinText, String.toList_ofList, hcharacters, List.flatMap_map]
  simp only [String.toList_ofList]
  rfl

theorem rules_builtinText : rules builtinText = .ok [.errorAttribute] := by
  rw [rules, document?_builtinText]
  decide +kernel

end RuleFile

theorem Registry.builtin_eq_define {ds : List ValidDefinition}
    (h : RuleFile.TextGives RuleFile.builtinText ds) : builtin = empty.define ds := by
  have hsame : ds.map (·.rule) = [.errorAttribute] :=
    Except.ok.inj (h.rules_eq.symm.trans RuleFile.rules_builtinText)
  rw [define, hsame]
  rfl

/-! ## Layers -/

namespace Configuration

open Registry

variable {disk : Disk} {c : Configuration} {ds : List ValidDefinition} {registry : Registry}

/-- The definitions of all layers, one after the other: those of the built-in rule file, of the rule
directories and of the rule files. -/
def Layers (disk : Disk) (c : Configuration) (ds : List ValidDefinition) : Prop :=
  ∃ builtin inDirectories inFiles,
    RuleFile.TextGives RuleFile.builtinText builtin ∧
    GivesAll (DirectoryGives disk) c.ruleDirectories inDirectories ∧
    GivesAll (FileGives disk) c.ruleFiles inFiles ∧
    ds = builtin ++ inDirectories ++ inFiles

/-- Every source that the configuration names gives something. -/
def EverySourceGives (disk : Disk) (c : Configuration) : Prop :=
  (∀ directory ∈ c.ruleDirectories, ∃ ds, DirectoryGives disk directory ds) ∧
    ∀ path ∈ c.ruleFiles, ∃ ds, FileGives disk path ds

/-- The first definition of an identifier gives the place of the rule, the last one its contents. -/
structure Precedes (c : Configuration) (ds : List ValidDefinition) (rules : List Rule) : Prop where
  ids : ∀ id, (∃ rule ∈ rules, rule.id = id) ↔ ∃ d ∈ ds, d.id = id
  order : rules.Pairwise fun r r' =>
    (ds.map (·.id)).idxOf r.id < (ds.map (·.id)).idxOf r'.id
  last : ∀ rule ∈ rules, ∃ d, (ds.filter (·.id = rule.id)).getLast? = some d ∧
    rule = { d.rule with
      positionMode := c.positionMode?.getD d.rule.positionMode
      malformed := c.malformed?.getD d.rule.malformed }

/-- What the command line says about all rules leaves their identifiers alone. -/
@[simp] theorem id_override (c : Configuration) (rule : Rule) : (c.override rule).id = rule.id :=
  rfl

/-- The rule of a registry under an identifier is that of the last definition. -/
theorem getLast?_of_mem_define {rule : Rule} (h : rule ∈ (empty.define ds).rules) :
    ∃ d, (ds.filter (·.id = rule.id)).getLast? = some d ∧ rule = d.rule := by
  have hfound := get?_of_mem (nodup_ids_addAll _) h
  have hsame : (fun d : ValidDefinition => decide (d.rule.id = rule.id)) =
      fun d => decide (d.id = rule.id) := by
    funext d
    rw [d.id_rule]
  rw [get?_addAll, List.filter_map, List.getLast?_map] at hfound
  simp only [Function.comp_def, hsame] at hfound
  cases hlast : (ds.filter (·.id = rule.id)).getLast? with
  | none =>
    rw [hlast] at hfound
    cases hfound
  | some d =>
    rw [hlast] at hfound
    cases hfound
    exact ⟨d, rfl, rfl⟩

theorem precedes_define (c : Configuration) (ds : List ValidDefinition) :
    Precedes c ds ((empty.define ds).rules.map c.override) where
  ids id := by
    have hmem : id ∈ (empty.define ds).ids ↔ id ∈ ds.map (·.id) := by
      rw [define, mem_ids_addAll_iff, map_id_rule]
      simp
    simpa [Registry.ids] using hmem
  order := by
    have horder := pairwise_ids_addAll (ds.map (·.rule))
    rw [map_id_rule] at horder
    have hrules := List.pairwise_map.mp horder
    exact List.pairwise_map.mpr hrules
  last rule h := by
    obtain ⟨r, hr, rfl⟩ := List.mem_map.mp h
    obtain ⟨d, hlast, rfl⟩ := getLast?_of_mem_define hr
    exact ⟨d, hlast, rfl⟩

theorem registry_eq_of_layers (h : Layers disk c ds) :
    c.registry disk = .ok ⟨(empty.define ds).rules.map c.override⟩ := by
  obtain ⟨builtin, inDirectories, inFiles, hbuiltin, hdirectories, hfiles, rfl⟩ := h
  rw [Configuration.registry, (loads_loadDirectory disk).loadAll hdirectories]
  show (loadAll (loadFile disk) _ c.ruleFiles >>= _) = _
  rw [(loads_loadFile disk).loadAll hfiles, builtin_eq_define hbuiltin, ← define_append,
    ← define_append, List.append_assoc]
  rfl

/-- The built-in rule file gives something in any case. -/
theorem exists_layers_iff : (∃ ds, Layers disk c ds) ↔ EverySourceGives disk c := by
  rw [EverySourceGives, ← exists_givesAll_iff, ← exists_givesAll_iff]
  constructor
  · rintro ⟨_, _, inDirectories, inFiles, -, hdirectories, hfiles, -⟩
    exact ⟨⟨inDirectories, hdirectories⟩, inFiles, hfiles⟩
  · rintro ⟨⟨inDirectories, hdirectories⟩, inFiles, hfiles⟩
    obtain ⟨builtin, hbuiltin⟩ := RuleFile.exists_textGives RuleFile.rules_builtinText
    exact ⟨_, builtin, inDirectories, inFiles, hbuiltin, hdirectories, hfiles, rfl⟩

theorem everySourceGives_of_registry (h : c.registry disk = .ok registry) :
    EverySourceGives disk c := by
  rw [Configuration.registry] at h
  cases hdirectories : loadAll (loadDirectory disk) .builtin c.ruleDirectories with
  | error e =>
    rw [hdirectories] at h
    cases h
  | ok loaded =>
    rw [hdirectories] at h
    cases hfiles : loadAll (loadFile disk) loaded c.ruleFiles with
    | error e =>
      replace h : (loadAll (loadFile disk) loaded c.ruleFiles >>= _) = Except.ok registry := h
      rw [hfiles] at h
      cases h
    | ok loaded' =>
      exact ⟨exists_givesAll_iff.mp ((loads_loadDirectory disk).exists_gives hdirectories),
        exists_givesAll_iff.mp ((loads_loadFile disk).exists_gives hfiles)⟩

/-- If every source of a configuration gives something, there are definitions of all layers, loading
succeeds, and the run has one rule for each trimmed identifier among the definitions, in the order
in which the identifiers first appear; each rule is that of the last definition, but for the
position mode and the policy that the configuration sets. If a source gives nothing, loading
fails. -/
theorem registry_of_layers (disk : Disk) (c : Configuration) :
    (∀ ds, Layers disk c ds → ∃ registry, c.registry disk = .ok registry ∧
      Precedes c ds registry.rules) ∧
    (EverySourceGives disk c → ∃ ds, Layers disk c ds) ∧
    (¬ EverySourceGives disk c → ∃ e, c.registry disk = .error e) := by
  refine ⟨?_, exists_layers_iff.mpr, ?_⟩
  · intro ds hlayers
    exact ⟨_, registry_eq_of_layers hlayers, precedes_define c ds⟩
  · intro hmissing
    cases h : c.registry disk with
    | error e => exact ⟨e, rfl⟩
    | ok registry => exact absurd (everySourceGives_of_registry h) hmissing

/-- A directory adds a rule and changes the built-in one, and a file defines the added rule again.
A file that is missing leaves no rules. -/
theorem registry_of_layers_redefined :
    let disk := Snapshot.disk
      { texts :=
          [("rules/a.toml",
              "[[rules]]\nid=' A1 '\ntitle=''\nattribute='A'\ndisallowed_characters=['!']"),
            ("rules/b.toml",
              "[[rules]]\nid='ESG0001'\ntitle=''\nattribute='B'\ndisallowed_characters=[]"),
            ("c.toml", "[[rules]]\nid='A1'\ntitle=''\nattribute='C'\ndisallowed_characters=[]")]
        directories := [("rules", some ["b.toml", "notes.txt", "a.toml"])] }
    let c : Configuration :=
      { files := []
        ruleDirectories := ["rules"]
        ruleFiles := ["c.toml"]
        positionMode? := some .characterIndex
        malformed? := none
        format := .text
        parallel := false
        chunkSize := defaultChunkSize
        emitDirectory? := none
        denyWarnings := false
        logLevel := "warn" }
    (∃ ds, ds.map (·.id) = ["ESG0001", "A1", "ESG0001", "A1"] ∧ Layers disk c ds ∧
      ∃ registry, c.registry disk = .ok registry ∧ Precedes c ds registry.rules) ∧
    ∃ e, Configuration.registry disk { c with ruleFiles := ["c.toml", "d.toml"] } = .error e := by
  intro disk c
  obtain ⟨builtin, hbuiltin⟩ := RuleFile.exists_textGives RuleFile.rules_builtinText
  have hbuiltinIds : builtin.map (·.id) = ["ESG0001"] := by
    rw [← map_id_rule, Except.ok.inj (hbuiltin.rules_eq.symm.trans RuleFile.rules_builtinText)]
    rfl
  constructor
  · obtain ⟨a, ha, haIds⟩ : ∃ a, FileGives disk (Path.join "rules" "a.toml") a ∧
        a.map (·.id) = ["A1"] := exists_gives_of_map_id (by decide +kernel)
    obtain ⟨b, hb, hbIds⟩ : ∃ b, FileGives disk (Path.join "rules" "b.toml") b ∧
        b.map (·.id) = ["ESG0001"] := exists_gives_of_map_id (by decide +kernel)
    obtain ⟨d, hd, hdIds⟩ : ∃ d, FileGives disk "c.toml" d ∧
        d.map (·.id) = ["A1"] := exists_gives_of_map_id (by decide +kernel)
    have hlayers : Layers disk c (builtin ++ (a ++ b) ++ d) := by
      refine ⟨builtin, a ++ b, d, hbuiltin, ?_, ?_, rfl⟩
      · refine ⟨[a ++ b], .cons ⟨["a.toml", "b.toml"], ?_, ?_⟩ .nil, (List.append_nil _).symm⟩
        · exact ⟨by decide +kernel, ["b.toml", "notes.txt", "a.toml"], rfl, by decide +kernel⟩
        · exact ⟨[a, b], .cons ha (.cons hb .nil), by simp⟩
      · exact ⟨[d], .cons hd .nil, (List.append_nil _).symm⟩
    refine ⟨_, ?_, hlayers, (registry_of_layers disk c).1 _ hlayers⟩
    simp [hbuiltinIds, haIds, hbIds, hdIds]
  · refine (registry_of_layers disk _).2.2 fun hevery => ?_
    obtain ⟨ds, text, hreadable, -⟩ := hevery.2 "d.toml" (by decide)
    cases hreadable

end Configuration

end AttributeLint

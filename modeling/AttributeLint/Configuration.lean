import AttributeLint.CommandLine
import AttributeLint.Rule.Loading

/-!
# Configuration — a run as it is set up

A configuration fixes all choices of a run. Its rules are the built-in one, then those of the rule
directories, then those of the rule files, each later rule replacing an earlier one with the same
identifier; what the command line says about all rules is applied last.
-/

namespace AttributeLint

/-- The choices of a run. -/
structure Configuration where
  files : List String
  /-- The rule directories in the order in which they are loaded. -/
  ruleDirectories : List String
  ruleFiles : List String
  positionMode? : Option PositionMode
  malformed? : Option MalformedPolicy
  format : OutputFormat
  parallel : Bool
  chunkSize : Nat
  emitDirectory? : Option String
  denyWarnings : Bool
  logLevel : String
  deriving DecidableEq, Repr

/-- Why arguments give no configuration. -/
inductive ConfigurationError where
  | zeroChunkSize
  deriving DecidableEq, Repr

/-- The wording of the error. -/
def ConfigurationError.message : ConfigurationError → String
  | .zeroChunkSize => "--chunk-size must be at least 1"

namespace Configuration

/-- The number of strings in a chunk unless another one is given. -/
def defaultChunkSize : Nat := 64

/-- The rule directory of a user whose configuration lies in the given directory. -/
def userRuleDirectory (configDirectory : String) : String :=
  Path.join (Path.join configDirectory "attr-check") "rules"

/-- The configuration that arguments ask for. The rules of the user come first, so that rules named
on the command line can replace them. -/
def ofArguments (configDirectory? : Option String) (a : Arguments) :
    Except ConfigurationError Configuration :=
  let userDirectories :=
    if a.noUserRules then [] else (configDirectory?.map userRuleDirectory).toList
  let chunkSize := a.chunkSize?.getD defaultChunkSize
  if chunkSize = 0 then .error .zeroChunkSize
  else
    .ok
      { files := a.files
        ruleDirectories := userDirectories ++ a.rulesDir?.toList
        ruleFiles := a.rules
        positionMode? := a.positionMode?
        malformed? := a.malformed?
        format := a.format?.getD .text
        parallel := a.parallel
        chunkSize
        emitDirectory? := a.emitAttribute?
        denyWarnings := a.denyWarnings
        logLevel := a.logLevel?.getD "warn" }

/-- The configuration with one more rule directory, if the environment names one. -/
def withRuleDirectory (c : Configuration) (directory? : Option String) : Configuration :=
  { c with ruleDirectories := c.ruleDirectories ++ directory?.toList }

/-- A rule with what the configuration says about all rules. -/
def override (c : Configuration) (r : Rule) : Rule :=
  { r with
    positionMode := c.positionMode?.getD r.positionMode
    malformed := c.malformed?.getD r.malformed }

/-- Loads something from each of several paths, up to the first failure. -/
def loadAll (load : Registry → String → Registry × Except LoadError Nat) :
    Registry → List String → Except LoadError Registry
  | registry, [] => .ok registry
  | registry, path :: paths =>
    match load registry path with
    | (_, .error e) => .error e
    | (registry, .ok _) => loadAll load registry paths

/-- The rules of a run. -/
def registry (disk : Disk) (c : Configuration) : Except LoadError Registry := do
  let loaded ← loadAll (Registry.loadDirectory disk) .builtin c.ruleDirectories
  let loaded ← loadAll (Registry.loadFile disk) loaded c.ruleFiles
  .ok ⟨loaded.rules.map c.override⟩

end Configuration

end AttributeLint

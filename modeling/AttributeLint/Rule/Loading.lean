import AttributeLint.Files
import AttributeLint.Rule.File
import AttributeLint.Rule.Registry

/-!
# Loading — rules from files and directories

A rule file adds all of its rules to a registry or none. The rule files of a directory are those
with the extension `toml`, in the order of their names; loading stops at the first that fails, and
the registry keeps what the files before it added.
-/

namespace AttributeLint

/-- Why loading rules failed. -/
inductive LoadError where
  | unreadableFile (path : String)
  | unreadableDirectory (path : String)
  | invalidFile (path : String) (cause : RuleError)
  deriving DecidableEq, Repr

namespace LoadError

/-- The wording of the error. -/
def message : LoadError → String
  | .unreadableFile path => "Failed to read rule file " ++ path
  | .unreadableDirectory path => "Failed to read rule directory " ++ path
  | .invalidFile path _ => "Invalid rule file " ++ path

/-- What is wrong with the rules themselves. -/
def cause? : LoadError → Option RuleError
  | .invalidFile _ cause => some cause
  | _ => none

end LoadError

namespace Registry

/-- The rules that a file holds. -/
def fileRules (disk : Disk) (path : String) : Except LoadError (List Rule) :=
  match disk.read? path with
  | none => .error (.unreadableFile path)
  | some text => (RuleFile.rules text).mapError (.invalidFile path)

/-- Loads a rule file: the registry with its rules, and their number. -/
def loadFile (disk : Disk) (registry : Registry) (path : String) :
    Registry × Except LoadError Nat :=
  match fileRules disk path with
  | .ok rules => (registry.addAll rules, .ok rules.length)
  | .error e => (registry, .error e)

/-- Loads rule files one after the other, up to the first that fails. -/
def loadFiles (disk : Disk) (registry : Registry) : List String → Registry × Except LoadError Nat
  | [] => (registry, .ok 0)
  | path :: paths =>
    match loadFile disk registry path with
    | (registry, .error e) => (registry, .error e)
    | (registry, .ok count) =>
      let (registry, rest) := loadFiles disk registry paths
      (registry, rest.map (count + ·))

/-- The paths of the rule files among the entries of a directory, in the order of their names. -/
def ruleFiles (directory : String) (entries : List String) : List String :=
  ((entries.filter (Path.hasExtension "toml")).mergeSort fun a b => decide (a ≤ b)).map
    (Path.join directory)

/-- Loads the rule files of a directory. A path that names no directory has none. -/
def loadDirectory (disk : Disk) (registry : Registry) (path : String) :
    Registry × Except LoadError Nat :=
  if disk.isDirectory path then
    match disk.entries? path with
    | some entries => loadFiles disk registry (ruleFiles path entries)
    | none => (registry, .error (.unreadableDirectory path))
  else (registry, .ok 0)

end Registry

end AttributeLint
